import SelectiveReject.Proofs.Intake
import SelectiveReject.Proofs.Codec
import SelectiveReject.Proofs.Sending
import SelectiveReject.Scenario.Trial

/-!
# What a machine hears

A datagram counts when it holds a packet and comes from the peer, if there is one yet.  Of the others, those
that are damaged are counted; and they leave no other trace in the machine that reads them:

```
step (damaged n m) queue = damaged n (step m queue)
```
-/

namespace SelectiveReject

/-! ## Datagrams -/

namespace Arrival

/-- The datagram is long enough for a packet, but its checksum is not right. -/
def Damaged (x : Arrival) : Prop :=
  Packet.headerLength ≤ x.received.length ∧ checksum x.received ≠ 0

instance (x : Arrival) : Decidable x.Damaged := inferInstanceAs (Decidable (_ ∧ _))

/-- The datagram comes from the peer, if there is one. -/
def From (peer : Option Address) (x : Arrival) : Prop := ∀ a ∈ peer, x.source = a

instance (peer : Option Address) (x : Arrival) : Decidable (x.From peer) :=
  inferInstanceAs (Decidable (∀ a ∈ peer, x.source = a))

/-- The datagram holds a packet that counts. -/
def Valid (peer : Option Address) (x : Arrival) : Prop := x.From peer ∧ x.packet.isOk = true

instance (peer : Option Address) (x : Arrival) : Decidable (x.Valid peer) :=
  inferInstanceAs (Decidable (_ ∧ _))

/-- How many damaged datagrams are counted when this one is read. -/
def damage (peer : Option Address) (x : Arrival) : Nat := if x.From peer ∧ x.Damaged then 1 else 0

/-- The peer after a datagram was read: the first packet that opens names it. -/
def names (x : Arrival) : Option Address → Option Address
  | some peer => some peer
  | none =>
      match x.packet with
      | .ok p => if p.Opens then some x.source else none
      | .error _ => none

variable {peer : Option Address} {x : Arrival}

theorem packet_eq_corrupt_iff : x.packet = .error .corrupt ↔ x.Damaged := Packet.decode_eq_corrupt_iff

/-- What counts is not damaged. -/
theorem damage_of_valid (h : x.Valid peer) : x.damage peer = 0 := by
  refine if_neg fun ⟨_, hdamaged⟩ => ?_
  have hok := h.2
  rw [packet_eq_corrupt_iff.mpr hdamaged] at hok
  cases hok

theorem names_of_not_valid (h : ¬ x.Valid peer) : x.names peer = peer := by
  cases peer with
  | some a => rfl
  | none =>
      cases hp : x.packet with
      | error e => simp only [names, hp]
      | ok p => exact absurd ⟨nofun, by rw [hp]; rfl⟩ h

end Arrival

open Arrival

/-- The peer after some datagrams were read. -/
def peerAfter (peer : Option Address) (read : List Arrival) : Option Address :=
  read.foldl (fun peer x => x.names peer) peer

/-- The datagrams that count. -/
def heard (peer : Option Address) : List Arrival → List Arrival
  | [] => []
  | x :: rest => (if x.Valid peer then [x] else []) ++ heard (x.names peer) rest

/-- How many damaged datagrams are counted. -/
def damage (peer : Option Address) : List Arrival → Nat
  | [] => 0
  | x :: rest => x.damage peer + damage (x.names peer) rest

/-- The datagrams of each batch that count. -/
def heardAll (peer : Option Address) : List (List Arrival) → List (List Arrival)
  | [] => []
  | batch :: rest => heard peer batch :: heardAll (peerAfter peer batch) rest

section
variable {peer : Option Address} {x : Arrival} {rest : List Arrival}

theorem heard_cons_valid (h : x.Valid peer) : heard peer (x :: rest) = x :: heard (x.names peer) rest := by
  rw [heard, if_pos h, List.singleton_append]

theorem heard_cons_invalid (h : ¬ x.Valid peer) : heard peer (x :: rest) = heard peer rest := by
  rw [heard, if_neg h, List.nil_append, names_of_not_valid h]

/-- What comes first does not count where nothing does. -/
theorem not_valid_of_heard_nil (h : heard peer (x :: rest) = []) : ¬ x.Valid peer := by
  intro hvalid
  rw [heard_cons_valid hvalid] at h
  cases h

theorem damage_append (first rest : List Arrival) :
    damage peer (first ++ rest) = damage peer first + damage (peerAfter peer first) rest := by
  induction first generalizing peer with
  | nil => exact (Nat.zero_add _).symm
  | cons x first ih => rw [List.cons_append, damage, damage, ih, Nat.add_assoc]; rfl

theorem length_heardAll (batches : List (List Arrival)) :
    (heardAll peer batches).length = batches.length := by
  induction batches generalizing peer with
  | nil => rfl
  | cons batch rest ih => rw [heardAll, List.length_cons, List.length_cons, ih]

theorem peerAfter_append (first rest : List Arrival) :
    peerAfter peer (first ++ rest) = peerAfter (peerAfter peer first) rest := List.foldl_append

end

/-! ## Counting -/

/-- So many more damaged datagrams are counted. -/
def Statistics.damaged (count : Nat) (t : Statistics) : Statistics :=
  { t with corruptPackets := t.corruptPackets + count }

/-- A machine that has a peer, in the end, and counts the damaged datagrams that it reads. -/
class Hearing (σ : Type) where
  /-- Whose packets count, once there is a peer. -/
  listensTo : σ → Option Address
  /-- So many more damaged datagrams have been counted. -/
  damaged : Nat → σ → σ

/-- So many more damaged datagrams have been counted before a step. -/
def Move.damaged {σ : Type} [Hearing σ] (count : Nat) : Move σ → Move σ
  | .wait => .wait
  | .next m queue sent => .next (Hearing.damaged count m) queue sent
  | .stop result => .stop (result.map (Statistics.damaged count))

namespace Serving

def damaged (count : Nat) (s : Serving) : Serving :=
  { s with statistics := s.statistics.damaged count }

end Serving

namespace Upload

/-- An upload that has not opened its file counts nothing. -/
def damaged (count : Nat) : Upload → Upload
  | .serving s activity => .serving (s.damaged count) activity
  | u => u

instance : Hearing Upload where
  listensTo u := some u.client
  damaged := damaged

end Upload

namespace Serving

variable {s : Serving} {goal : Goal} {queue : List Arrival} (count : Nat)

theorem damaged_damaged (s : Serving) (count more : Nat) :
    (s.damaged count).damaged more = s.damaged (count + more) := by
  unfold damaged Statistics.damaged
  rw [Nat.add_assoc]

theorem damaged_comm (s : Serving) (count more : Nat) :
    (s.damaged count).damaged more = (s.damaged more).damaged count := by
  rw [damaged_damaged, damaged_damaged, Nat.add_comm]

theorem resend_damaged (seq : Nat) (flag : Flag) :
    (s.damaged count).resend seq flag =
      ((s.resend seq flag).1.damaged count, (s.resend seq flag).2) := by
  unfold resend
  simp only [show (s.damaged count).window = s.window from rfl]
  cases s.window.resend seq flag with
  | error e => rfl
  | ok packet =>
      by_cases hflag : flag = .srejData
      · simp only [hflag, if_true]
        rfl
      · simp only [hflag, if_false]
        rfl

theorem sendNext_damaged : (s.damaged count).sendNext queue = (s.sendNext queue).damaged count := by
  unfold sendNext
  simp only [show (s.damaged count).unread = s.unread from rfl]
  cases s.unread with
  | none => rfl
  | some unread =>
      simp only [show (s.damaged count).chunk unread = s.chunk unread from rfl]
      split
      · rfl
      · rename_i chunk rest hnil hchunk
        simp only [show (s.damaged count).window = s.window from rfl]
        generalize s.window.addPane chunk s.window.current = added
        match added with
        | (.error e, _) => rfl
        | (.ok (), _) => rfl

theorem feedback_damaged (packet : Packet) :
    (s.damaged count).feedback goal packet queue = (s.feedback goal packet queue).damaged count := by
  unfold feedback
  cases packet.flag with
  | ack =>
      simp only [show (s.damaged count).window = s.window from rfl]
      generalize s.window.ackThrough packet.seq = passed
      match passed with
      | (.ok _, _) => rfl
      | (.error (.abort _), _) => rfl
      | (.error (.error e), _) => cases e <;> rfl
  | srej =>
      exact congrArg
        (fun r : Serving × List Packet => Move.next (Upload.serving r.1 (.listening goal)) queue r.2)
        (resend_damaged (s := s.heardSrej) count packet.seq .srejData)
  | eofAck =>
      simp only [show (s.damaged count).eofNumber = s.eofNumber from rfl]
      by_cases hlast : s.eofNumber = some packet.seq
      · simp only [if_pos hlast]
        rfl
      · simp only [if_neg hlast]
        rfl
  | fname | fnameOk | endOfFile | data | srejData | timeoutData | fnameBad => rfl

theorem hear_damaged (x : Arrival) :
    (s.damaged count).hear goal x queue = (s.hear goal x queue).damaged count := by
  unfold hear
  simp only [show (s.damaged count).client = s.client from rfl]
  by_cases hsource : x.source = s.client
  · rw [if_neg (by simpa using hsource), if_neg (by simpa using hsource)]
    cases x.packet with
    | ok packet => exact feedback_damaged count packet
    | error e =>
        cases e with
        | corrupt =>
            exact congrArg (fun s : Serving => Move.next (Upload.serving s (.listening goal)) queue [])
              (damaged_comm s count 1)
        | _ => rfl
  · rw [if_pos hsource, if_pos hsource]
    rfl

theorem beginWait_damaged :
    (s.damaged count).beginWait goal queue = (s.beginWait goal queue).damaged count := by
  unfold beginWait
  simp only [show (s.damaged count).retry = s.retry from rfl]
  generalize s.retry.attempt = attempt
  match attempt with
  | .error a => rfl
  | .ok (false, retry) => rfl
  | .ok (true, retry) => rfl

theorem heardAll_damaged : (s.damaged count).heardAll goal = (s.heardAll goal).damaged count := by
  cases goal with
  | more => rfl
  | farewell => exact beginWait_damaged count
  | room =>
      unfold heardAll
      simp only [show (s.damaged count).window = s.window from rfl]
      generalize s.window.isOpen = open'
      match open' with
      | .error a => rfl
      | .ok true => rfl
      | .ok false => exact beginWait_damaged count

theorem catchUp_damaged : (s.damaged count).catchUp goal queue = (s.catchUp goal queue).damaged count := by
  unfold catchUp
  simp only [show (s.damaged count).window = s.window from rfl]
  cases s.window.oldestUnacked with
  | some seq =>
      exact congrArg
        (fun r : Serving × List Packet => Move.next (Upload.serving r.1 (.listening goal)) queue r.2)
        (resend_damaged count seq .timeoutData)
  | none => cases goal <;> rfl

/-- A step makes no difference between damaged datagrams that have been counted and those that have not. -/
theorem step_damaged (activity : Activity) :
    (s.damaged count).step queue activity = (s.step queue activity).damaged count := by
  cases activity with
  | sending =>
      unfold step
      simp only [show (s.damaged count).window = s.window from rfl]
      generalize s.window.isOpen = open'
      match open' with
      | .error a => rfl
      | .ok true => exact sendNext_damaged count
      | .ok false => rfl
  | listening goal =>
      cases queue with
      | nil => exact heardAll_damaged count
      | cons x queue => exact hear_damaged count x
  | waiting goal => cases queue <;> rfl
  | overdue goal => exact catchUp_damaged count
  | done => rfl

end Serving

/-- So many more damaged datagrams have been counted before a packet was taken. -/
def Reply.damaged (count : Nat) (r : Reply) : Reply := { r with statistics := r.statistics.damaged count }

namespace Session

variable {s : Session} {t : Statistics} (count : Nat)

theorem askAgain_damaged (sent : List Packet) :
    s.askAgain (t.damaged count) sent = (s.askAgain t sent).map (Reply.damaged count) := by
  unfold askAgain
  cases s.buffer.lowestMissing <;> rfl

theorem acknowledge_damaged :
    s.acknowledge (t.damaged count) = (s.acknowledge t).map fun r => (r.1.damaged count, r.2) := by
  unfold acknowledge
  cases s.buffer.lastCommitted <;> rfl

theorem takeNext_damaged (payload : Bytes) (seq : Nat) :
    s.takeNext (t.damaged count) payload seq = (s.takeNext t payload seq).map (Reply.damaged count) := by
  unfold takeNext
  generalize s.buffer.add payload seq = added
  match added with
  | (.error e, _) => rfl
  | (.ok _, buffer) =>
      simp only
      generalize buffer.flush s.sink = flushed
      match flushed with
      | (.error e, _) => rfl
      | (.ok _, buffer, sink) =>
          simp only [acknowledge_damaged]
          generalize acknowledge ⟨buffer, sink⟩ t = acknowledged
          match acknowledged with
          | .error e => rfl
          | .ok (t, ack) =>
              simp only [Except.map]
              generalize buffer.lowestMissing = missing
              match missing with
              | .error a => rfl
              | .ok none => rfl
              | .ok (some _) => exact askAgain_damaged count [ack]

theorem takeLater_damaged (payload : Bytes) (seq : Nat) :
    s.takeLater (t.damaged count) payload seq = (s.takeLater t payload seq).map (Reply.damaged count) := by
  unfold takeLater
  generalize s.buffer.add payload seq = added
  match added with
  | (.ok .stored, buffer) => exact askAgain_damaged count []
  | (.ok .duplicate, buffer) =>
      exact askAgain_damaged (t := { t with duplicatePackets := t.duplicatePackets + 1 }) count []
  | (.error (.abort _), _) => rfl
  | (.error (.error e), buffer) => cases e <;> first | rfl | exact askAgain_damaged count []

theorem take_damaged (p : Packet) :
    s.take (t.damaged count) p = (s.take t p).map (Reply.damaged count) := by
  unfold take
  by_cases hdata : p.flag.isData = true
  · rw [if_pos hdata, if_pos hdata]
    unfold takeData
    by_cases hold : p.seq < s.buffer.next
    · rw [if_pos hold, if_pos hold]
      show (s.acknowledge
        (Statistics.damaged count { t with duplicatePackets := t.duplicatePackets + 1 })).map _ = _
      rw [acknowledge_damaged]
      cases s.acknowledge { t with duplicatePackets := t.duplicatePackets + 1 } <;> rfl
    · rw [if_neg hold, if_neg hold]
      by_cases hnext : p.seq = s.buffer.next
      · rw [if_pos hnext, if_pos hnext]
        exact takeNext_damaged count p.payload p.seq
      · rw [if_neg hnext, if_neg hnext]
        exact takeLater_damaged count p.payload p.seq
  · rw [if_neg hdata, if_neg hdata]
    by_cases hlast : p.flag = .endOfFile ∧ p.seq = s.buffer.next
    · rw [if_pos hlast, if_pos hlast]
      rfl
    · rw [if_neg hlast, if_neg hlast]
      by_cases hearly : p.flag = .endOfFile ∧ s.buffer.next < p.seq
      · rw [if_pos hearly, if_pos hearly]
        exact askAgain_damaged count []
      · rw [if_neg hearly, if_neg hearly]
        rfl

end Session

namespace Download

def damaged (count : Nat) (d : Download) : Download :=
  { d with statistics := d.statistics.damaged count }

/-- Whom a download listens to: anybody until somebody answers. -/
def listensTo (d : Download) : Option Address :=
  match d.stage with
  | .asking | .asked | .handshake => none
  | .answered _ | .receiving _ | .silent _ | .complete _ => some d.peer

instance : Hearing Download where
  listensTo := listensTo
  damaged := damaged

variable {d : Download} {queue : List Arrival} (count : Nat)

theorem damaged_damaged (d : Download) (count more : Nat) :
    (d.damaged count).damaged more = d.damaged (count + more) := by
  unfold damaged Statistics.damaged
  rw [Nat.add_assoc]

theorem damaged_comm (d : Download) (count more : Nat) :
    (d.damaged count).damaged more = (d.damaged more).damaged count := by
  rw [damaged_damaged, damaged_damaged, Nat.add_comm]

theorem read_damaged (x : Arrival) :
    (d.damaged count).read x = ((d.read x).1.damaged count, (d.read x).2) := by
  unfold read
  cases x.packet with
  | ok packet => rfl
  | error e =>
      cases e with
      | corrupt => exact congrArg (fun d : Download => (d, none)) (damaged_comm d count 1)
      | _ => rfl

theorem settle_damaged (reply : Except Stop Reply) :
    (d.damaged count).settle queue (reply.map (Reply.damaged count)) =
      (d.settle queue reply).damaged count := by
  cases reply with
  | error e => rfl
  | ok r => rfl

theorem beginWait_damaged : (d.damaged count).beginWait queue = (d.beginWait queue).damaged count := by
  unfold beginWait
  simp only [show (d.damaged count).retry = d.retry from rfl]
  generalize d.retry.attempt = attempt
  match attempt with
  | .error a => rfl
  | .ok (false, retry) => rfl
  | .ok (true, retry) => rfl

theorem answer_damaged (x : Arrival) :
    (d.damaged count).answer x queue = (d.answer x queue).damaged count := by
  unfold answer
  have hread : Download.read { d.damaged count with retry := d.retry.reset } x = _ :=
    @read_damaged { d with retry := d.retry.reset } count x
  simp only [show (d.damaged count).retry = d.retry from rfl, hread]
  generalize Download.read { d with retry := d.retry.reset } x = read
  match read with
  | (d', none) => rfl
  | (d', some packet) =>
      dsimp only
      split
      · rfl
      · split
        · rfl
        · split <;> rfl

theorem createFile_damaged (first : Option Packet) :
    (d.damaged count).createFile first queue = (d.createFile first queue).damaged count := by
  unfold createFile
  simp only [show (d.damaged count).fetch = d.fetch from rfl,
    show (d.damaged count).request = d.request from rfl]
  split
  · rfl
  · generalize ReorderBuffer.make d.request.parameters.window.toNat = made
    match made, first with
    | .error e, _ => rfl
    | .ok buffer, none => rfl
    | .ok buffer, some packet =>
        show (d.damaged count).settle queue (Session.take _ (d.statistics.damaged count) packet) = _
        rw [Session.take_damaged]
        exact settle_damaged count _

theorem receive_damaged (s : Session) (x : Arrival) :
    (d.damaged count).receive s x queue = (d.receive s x queue).damaged count := by
  unfold receive
  simp only [show (d.damaged count).peer = d.peer from rfl, read_damaged]
  split
  · rfl
  · generalize d.read x = read
    match read with
    | (d', none) => rfl
    | (d', some packet) =>
        show (d'.damaged count).settle queue (s.take (d'.statistics.damaged count) packet) = _
        rw [Session.take_damaged]
        exact settle_damaged count _

/-- A step makes no difference between damaged datagrams that have been counted and those that have not. -/
theorem step_damaged : (d.damaged count).step queue = (d.step queue).damaged count := by
  unfold step
  simp only [show (d.damaged count).stage = d.stage from rfl]
  cases d.stage with
  | asking => rfl
  | asked => exact beginWait_damaged count
  | handshake =>
      cases queue with
      | nil => rfl
      | cons x queue => exact answer_damaged count x
  | answered first => exact createFile_damaged count first
  | receiving s =>
      cases queue with
      | nil => rfl
      | cons x queue => exact receive_damaged count s x
  | silent s => rfl
  | complete s => rfl

end Download

end SelectiveReject
