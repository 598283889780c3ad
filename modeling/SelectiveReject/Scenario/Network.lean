import SelectiveReject.Scenario.Site

/-!
# A client and a server on a network without promises

Every datagram is on the wire until it arrives.  The network chooses which one does, and it may lose
one, carry it twice, or turn over a bit of one that is intact; the machines take their steps in any
order, and their timers run out whenever they like:

```
client, request, transfer i          a step of the client, of the server, of a transfer
clientTimer, transferTimer i         the wait of a machine is over
deliver i, lose i, duplicate i, damage i bit
```

A transfer that has ended stays in the list of transfers, with its result.  The registry forgets its
client when it has returned, but not when it was broken off.
-/

namespace SelectiveReject.Scenario

namespace Station

variable {σ : Type} [Machine σ]

/-- One step of a machine that neither waits nor has ended. -/
def advance (link : Link) (s : Station σ) (faults : FaultModel) :
    Option (Station σ × FaultModel × List Departure) :=
  if s.ended then none
  else
    match Machine.step s.machine s.queue with
    | .wait => none
    | .stop result => some (s.finish result, faults, [])
    | .next machine queue sent =>
        match { s.channel with peer := Machine.peer machine }.sendAll link faults sent with
        | (.error e, channel, faults, left) =>
            some (finish ⟨machine, channel, queue, none, none⟩ (.error e), faults, left)
        | (.ok (), channel, faults, left) =>
            some (⟨machine, channel, queue, s.deadline, none⟩, faults, left)

section
variable {link : Link} {s s' : Station σ} {faults faults' : FaultModel} {left : List Departure}

/-- A station that moves ends as its machine does, or takes a step and sends what the step says. -/
theorem advance_cases (h : s.advance link faults = some (s', faults', left)) :
    s.ended = false ∧
      ((∃ result, Machine.step s.machine s.queue = .stop result ∧ s' = s.finish result ∧
          faults' = faults ∧ left = []) ∨
        ∃ sent channel, Machine.step s.machine s.queue = .next s'.machine s'.queue sent ∧
          channel.peer = Machine.peer s'.machine ∧
          faults' = (Channel.sendAll channel link faults sent).2.2.1 ∧
          left = (channel.sendAll link faults sent).2.2.2 ∧
          ∀ result, s'.result = some result →
            ∃ stop, result = .error stop ∧ (channel.sendAll link faults sent).1 = .error stop) := by
  unfold advance at h
  split at h
  · cases h
  · rename_i hended
    refine ⟨Bool.eq_false_iff.mpr hended, ?_⟩
    split at h
    · cases h
    · rename_i result hstep
      cases h
      exact Or.inl ⟨result, hstep, rfl, rfl, rfl⟩
    · rename_i machine queue sent hstep
      right
      refine ⟨sent, { s.channel with peer := Machine.peer machine }, ?_⟩
      split at h
      · rename_i stop channel faults left hsend
        cases h
        refine ⟨hstep, rfl, by rw [hsend], by rw [hsend], fun result hresult => ?_⟩
        cases hresult
        exact ⟨stop, rfl, by rw [hsend]⟩
      · rename_i hsend
        cases h
        exact ⟨hstep, rfl, by rw [hsend], by rw [hsend], nofun⟩

end

end Station

/-- A datagram as it arrives. -/
def Delivery.arrival (d : Delivery) : Arrival := ⟨d.source, d.departure.bytes⟩

/-- Where the client and the server are, and the transfers, which have addresses of their own. -/
structure Addresses where
  client : Address
  server : Address
  transfer : Nat → Address
  apart : server ≠ client
  client_ne : ∀ n, transfer n ≠ client
  server_ne : ∀ n, transfer n ≠ server

structure Network where
  site : Site
  /-- The datagrams at the address at which the server listens. -/
  inbox : List Arrival := []
  client : Station Download
  /-- The faults that the client adds to what it sends. -/
  faults : FaultModel
  /-- The datagrams that are under way. -/
  wire : List Delivery := []
  /-- Every datagram that has been sent. -/
  history : List Delivery := []

/-- What happens next. -/
inductive Event where
  | client
  | clientTimer
  | request
  | transfer (index : Nat)
  | transferTimer (index : Nat)
  | deliver (index : Nat)
  | lose (index : Nat)
  | duplicate (index : Nat)
  | damage (index bit : Nat)
  deriving DecidableEq, Repr

namespace Network

/-- A client that has not moved yet, at a site. -/
def start (site : Site) (download : Download) (faults : FaultModel) : Network where
  site := site
  client := .start download
  faults := faults

/-- What a machine has sent is under way. -/
def post (n : Network) (source : Address) (left : List Departure) : Network :=
  let sent := left.map fun d => ⟨source, d⟩
  { n with wire := n.wire ++ sent, history := n.history ++ sent }

/-- Puts a datagram into the queue that it is addressed to, if there is one. -/
def arrive (a : Addresses) (n : Network) (d : Delivery) : Network :=
  if d.departure.target = a.client then { n with client := n.client.enqueue [d.arrival] }
  else if d.departure.target = a.server then { n with inbox := n.inbox ++ [d.arrival] }
  else { n with site := n.site.forward d.departure.target d.arrival }

/-- The client takes a step. -/
def stepClient (a : Addresses) (n : Network) : Option Network :=
  (n.client.advance n.site.link n.faults).map fun (client, faults, left) =>
    { n with client := client, faults := faults }.post a.client left

/-- The server takes the first datagram that was sent to it. -/
def stepServer (n : Network) : Option Network :=
  match n.inbox with
  | [] => none
  | datagram :: rest => some { n with inbox := rest, site := n.site.receive datagram }

/-- A transfer has moved; when it has returned, the registry forgets it. -/
def replace (n : Network) (index : Nat) (t : Transfer)
    (moved : Station Upload × FaultModel × List Departure) : Network :=
  let (station, faults, left) := moved
  let server := if station.returned then n.site.server.close t.client else n.site.server
  let transfers := n.site.transfers.set index { t with station := station }
  { n with site := { n.site with
      server := server, faults := faults, transfers := transfers } }.post t.address left

/-- A transfer takes a step. -/
def stepTransfer (n : Network) (index : Nat) : Option Network :=
  match n.site.transfers[index]? with
  | none => none
  | some t =>
      (t.station.advance n.site.link n.site.faults).map fun moved => n.replace index t moved

/-- The wait of a transfer is over. -/
def expireTransfer (n : Network) (index : Nat) : Option Network :=
  match n.site.transfers[index]? with
  | none => none
  | some t =>
      if t.station.ended then none
      else some (n.replace index t (t.station.expire, n.site.faults, []))

/-- A bit of an intact datagram is turned over. -/
def damage (n : Network) (index bit : Nat) : Option Network :=
  match n.wire[index]? with
  | none => none
  | some ⟨source, target, bytes⟩ =>
      if (Packet.decode bytes).isOk ∧ bit < 8 * bytes.length then
        some { n with wire := n.wire.set index ⟨source, target, flipBit bytes bit⟩ }
      else none

def act (a : Addresses) (n : Network) : Event → Option Network
  | .client => n.stepClient a
  | .clientTimer => if n.client.ended then none else some { n with client := n.client.expire }
  | .request => n.stepServer
  | .transfer index => n.stepTransfer index
  | .transferTimer index => n.expireTransfer index
  | .deliver index =>
      n.wire[index]?.map fun d => { n with wire := n.wire.eraseIdx index }.arrive a d
  | .lose index => n.wire[index]?.map fun _ => { n with wire := n.wire.eraseIdx index }
  | .duplicate index => n.wire[index]?.map fun d => { n with wire := n.wire ++ [d] }
  | .damage index bit => n.damage index bit

/-- Lets one event happen after the other. -/
def run (a : Addresses) (n : Network) : List Event → Option Network
  | [] => some n
  | event :: rest => (n.act a event).bind fun n => n.run a rest

/-- The states that a network can be in. -/
inductive Reaches (a : Addresses) (n : Network) : Network → Prop
  | refl : Reaches a n n
  | step {now next : Network} (event : Event) (h : Reaches a n now)
      (hact : now.act a event = some next) : Reaches a n next

/-- Nothing is under way, and every machine waits or has ended. -/
def Quiet (n : Network) : Prop :=
  n.wire = [] ∧ n.client.advance n.site.link n.faults = none ∧
    ∀ t ∈ n.site.transfers, t.station.advance n.site.link n.site.faults = none

variable {n n' : Network} {index : Nat}

theorem stepServer_cases (h : n.stepServer = some n') : ∃ datagram rest,
    n.inbox = datagram :: rest ∧
      n' = { n with inbox := rest, site := n.site.receive datagram } := by
  unfold stepServer at h
  split at h
  · cases h
  · rename_i datagram rest hinbox
    cases h
    exact ⟨datagram, rest, hinbox, rfl⟩

theorem stepTransfer_cases (h : n.stepTransfer index = some n') : ∃ t moved,
    n.site.transfers[index]? = some t ∧
      t.station.advance n.site.link n.site.faults = some moved ∧ n' = n.replace index t moved := by
  unfold stepTransfer at h
  split at h
  · cases h
  · rename_i t ht
    obtain ⟨moved, hadvance, rfl⟩ := Option.map_eq_some_iff.mp h
    exact ⟨t, moved, ht, hadvance, rfl⟩

theorem expireTransfer_cases (h : n.expireTransfer index = some n') : ∃ t,
    n.site.transfers[index]? = some t ∧ t.station.ended = false ∧
      n' = n.replace index t (t.station.expire, n.site.faults, []) := by
  unfold expireTransfer at h
  split at h
  · cases h
  · rename_i t ht
    split at h
    · cases h
    · rename_i hended
      cases h
      exact ⟨t, ht, Bool.eq_false_iff.mpr hended, rfl⟩

theorem damage_cases {bit : Nat} (h : n.damage index bit = some n') : ∃ source target bytes,
    n.wire[index]? = some ⟨source, target, bytes⟩ ∧ (Packet.decode bytes).isOk ∧
      bit < 8 * bytes.length ∧
      n' = { n with wire := n.wire.set index ⟨source, target, flipBit bytes bit⟩ } := by
  unfold damage at h
  split at h
  · cases h
  · rename_i source target bytes hd
    split at h
    · rename_i hintact
      cases h
      exact ⟨source, target, bytes, hd, hintact.1, hintact.2, rfl⟩
    · cases h

/-- A state that a run of events leads to can be reached. -/
theorem reaches_of_run {a : Addresses} {n now next : Network} {events : List Event}
    (h : Reaches a n now) (hrun : now.run a events = some next) : Reaches a n next := by
  induction events generalizing now with
  | nil =>
      rw [run, Option.some.injEq] at hrun
      subst hrun
      exact h
  | cons event rest ih =>
      rw [run, Option.bind_eq_some_iff] at hrun
      obtain ⟨between, hact, hrest⟩ := hrun
      exact ih (.step event h hact) hrest

end Network

end SelectiveReject.Scenario
