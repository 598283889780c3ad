import SelectiveReject.Proofs.Talk

/-!
# A transfer that nothing disturbs

When nothing is lost and nothing overtakes anything, what the two sides say is written beforehand:

```
item 0           fnameOk 0
item i           data i                  answer i           ack i
item (last + 1)  endOfFile (last + 1)    answer (last + 1)  eofAck (last + 1)
```

A client that has read `r` items (`HasRead`) and a transfer that has sent `k` of them and read `q` answers
(`HasSent`) are known up to what they do at the moment, their counters included.
-/

namespace SelectiveReject

namespace Job

variable (j : Job)

/-- What the transfer sends, one after the other. -/
def item (i : Nat) : Packet :=
  if i = 0 then .control .fnameOk 0
  else if i ≤ j.last then ⟨UInt32.ofNat i, .data, j.piece i⟩
  else .control .endOfFile (j.last + 1)

/-- What the client answers; the first item has no answer. -/
def answer (i : Nat) : Packet :=
  if i ≤ j.last then .control .ack i else .control .eofAck (j.last + 1)

/-- What a client has counted that has read `r` items. -/
def countRead (r : Nat) : Statistics where
  packetsSent := max 1 r
  acksSent := min (r - 1) j.last

/-- What a transfer has counted that has sent `k` items and read `q` answers. -/
def countSent (k q : Nat) : Statistics where
  packetsSent := k
  dataPackets := min (k - 1) j.last
  acksReceived := min q j.last
  payloadBytes := (j.upTo (min (k - 1) j.last)).length

/-- What the client has counted in the end. -/
def received : Statistics where
  packetsSent := j.last + 2
  acksSent := j.last
  payloadBytes := j.file.length
  digest := Crc32.ofBytes j.file

/-- What the transfer has counted in the end. -/
def transferred : Statistics where
  packetsSent := j.last + 2
  dataPackets := j.last
  acksReceived := j.last
  payloadBytes := j.file.length
  digest := Crc32.ofBytes j.file

theorem item_data {i : Nat} (hone : 1 ≤ i) (h : i ≤ j.last) :
    j.item i = ⟨UInt32.ofNat i, .data, j.piece i⟩ := by
  rw [item, if_neg (by omega), if_pos h]

theorem item_end : j.item (j.last + 1) = .control .endOfFile (j.last + 1) := by
  rw [item, if_neg (by omega), if_neg (by omega)]

theorem answer_ack {i : Nat} (h : i ≤ j.last) : j.answer i = .control .ack i := if_pos h

theorem answer_end : j.answer (j.last + 1) = .control .eofAck (j.last + 1) := if_neg (by omega)

theorem item_short (i : Nat) : (j.item i).payload.length ≤ Packet.maxPayload := by
  unfold item
  split
  · exact Nat.zero_le _
  · split
    · exact j.length_piece i
    · exact Nat.zero_le _

theorem answer_short (i : Nat) : (j.answer i).payload.length ≤ Packet.maxPayload := by
  unfold answer
  split <;> exact Nat.zero_le _

/-- An acknowledgement more. -/
theorem acked_countRead {r : Nat} (hone : 1 ≤ r) (h : r ≤ j.last) :
    Session.acked (j.countRead r) = j.countRead (r + 1) := by
  unfold Session.acked countRead
  congr 1
  · show max 1 r + 1 = max 1 (r + 1)
    omega
  · show min (r - 1) j.last + 1 = min (r + 1 - 1) j.last
    omega

/-- A data packet more. -/
theorem countSent_piece {k : Nat} (q : Nat) (hone : 1 ≤ k) (h : k ≤ j.last) :
    { j.countSent k q with
      payloadBytes := (j.countSent k q).payloadBytes + (j.piece k).length
      packetsSent := (j.countSent k q).packetsSent + 1
      dataPackets := (j.countSent k q).dataPackets + 1 } = j.countSent (k + 1) q := by
  obtain ⟨i, rfl⟩ : ∃ i, k = i + 1 := ⟨k - 1, by omega⟩
  have hbefore : min (i + 1 - 1) j.last = i := by omega
  have hafter : min (i + 1 + 1 - 1) j.last = i + 1 := by omega
  unfold countSent
  simp only [hbefore, hafter, Consignment.upTo_succ, List.length_append]

theorem countSent_last : { j.countSent (j.last + 2) (j.last + 1) with
    digest := Crc32.ofBytes j.file } = j.transferred := by
  have hall : min (j.last + 2 - 1) j.last = j.last := by omega
  have hread : min (j.last + 1) j.last = j.last := by omega
  unfold countSent transferred
  simp only [hall, hread, Consignment.upTo_last]

end Job

/-! ## The client -/

namespace Download

/-- What a client does that has read `r` items. -/
def At (j : Job) (source : Address) (r : Nat) (d : Download) : Stage → Prop
  | .asked => r = 0 ∧ d.retry.count = 0
  | .handshake => r = 0
  | .answered none => r = 1 ∧ d.peer = source
  | .receiving s => 1 ≤ r ∧ r ≤ j.last + 1 ∧ s.next = r ∧ s.buffer.pending = 0 ∧ d.peer = source
  | .complete _ => r = j.last + 2 ∧ d.peer = source
  | .asking | .answered (some _) | .silent _ => False

/-- A client that has asked, and has read `r` items, which come from `source`. -/
structure HasRead (j : Job) (source : Address) (r : Nat) (d : Download) : Prop where
  creatable : d.fetch.creatable = true
  tries : 1 ≤ d.retry.maxTries ∧ d.retry.maxTries < limit32
  statistics : d.statistics = j.countRead r
  stage : d.At j source r d.stage

/-- How urgent the next step of a client is that reads nothing. -/
def urge (d : Download) : Nat :=
  match d.stage with
  | .asked | .answered _ | .complete _ => 1
  | _ => 0

/-- What a client sends when it has read an item. -/
def replies (j : Job) (r : Nat) : List Packet := if r = 0 then [] else [j.answer r]

variable {j : Job} {source : Address} {r limit : Nat} {d d' : Download}
  {queue queue' : List Arrival} {sent : List Packet}

/-- A client that has asked waits for an answer, and has read nothing. -/
theorem hasRead_asked (source : Address) (hstage : d.stage = .asking) (hnew : d.statistics = {})
    (hcreatable : d.fetch.creatable = true) (hcount : d.retry.count = 0)
    (htries : 1 ≤ d.retry.maxTries ∧ d.retry.maxTries < limit32) :
    ∃ d', Machine.step d queue = .next d' queue [d.request.toPacket] ∧ d'.peer = d.server ∧
      d'.HasRead j source 0 := by
  refine ⟨{ d with
    peer := d.server
    statistics := { d.statistics with packetsSent := d.statistics.packetsSent + 1 }
    stage := .asked }, ?_, rfl, hcreatable, htries, ?_, rfl, hcount⟩
  · show d.step queue = _
    unfold step
    rw [hstage]
  · have hacks : min (0 - 1) j.last = 0 := by omega
    show ({ d.statistics with packetsSent := d.statistics.packetsSent + 1 } : Statistics) = _
    rw [hnew]
    unfold Job.countRead
    simp only [hacks]
    rfl

/-- A data packet that comes in its turn is written and acknowledged. -/
theorem HasRead.take_data {s : Session} {reply : Reply} (h : d.HasRead j source r)
    (hstage : d.stage = .receiving s) (hlast : r ≤ j.last)
    (htakes : s.Takes j limit d.statistics (j.item r) reply) :
    (d.after reply).HasRead j source (r + 1) ∧ reply.packets = [j.answer r] := by
  have hat := h.stage
  rw [hstage] at hat
  obtain ⟨hone, -, hnext, hpending, hpeer⟩ := hat
  have hword := j.last_lt
  have hitem := j.item_data hone hlast
  have hseq : (j.item r).seq = r := by
    rw [hitem]
    exact Packet.seq_control .data (by omega)
  cases htakes with
  | advance s' hdata _ hfits hlt hmoved =>
      have hnext' : s'.next = r + 1 := by omega
      have hnone : s'.buffer.pending = 0 := by omega
      refine ⟨⟨h.creatable, h.tries, ?_, ?_⟩, ?_⟩
      · show Session.acked d.statistics = _
        rw [h.statistics, j.acked_countRead hone hlast]
      · exact ⟨by omega, by omega, hnext', hnone, hpeer⟩
      · rw [hnext', Nat.add_sub_cancel, j.answer_ack hlast]
  | advanceAsking s' t' hdata _ hfits hlt hmoved hmore => omega
  | old hdata hold => omega
  | later s' t' hdata hlater hfits hsame => omega
  | finish hend =>
      rw [hitem] at hend
      cases hend
  | early t' hend =>
      rw [hitem] at hend
      cases hend
  | pass hdata =>
      rw [hitem] at hdata
      cases hdata

/-- The end of the file comes when everything has been written, and is confirmed. -/
theorem HasRead.take_end {s : Session} {reply : Reply} (h : d.HasRead j source (j.last + 1))
    (hstage : d.stage = .receiving s)
    (htakes : s.Takes j limit d.statistics (j.item (j.last + 1)) reply) :
    (d.after reply).HasRead j source (j.last + 2) ∧ reply.packets = [j.answer (j.last + 1)] := by
  have hat := h.stage
  rw [hstage] at hat
  obtain ⟨hone, -, hnext, hpending, hpeer⟩ := hat
  have hword := j.last_lt
  have hitem := j.item_end
  have hseq : (j.item (j.last + 1)).seq = j.last + 1 := by
    rw [hitem]
    exact Packet.seq_control .endOfFile (by omega)
  have hflag : (j.item (j.last + 1)).flag.isData = false := by
    rw [hitem]
    rfl
  cases htakes with
  | finish hend _ =>
      refine ⟨⟨h.creatable, h.tries, ?_, rfl, hpeer⟩, ?_⟩
      · show ({ d.statistics with packetsSent := d.statistics.packetsSent + 1 } : Statistics) = _
        rw [h.statistics]
        have hsent : max 1 (j.last + 1) + 1 = max 1 (j.last + 2) := by omega
        have hacks : min (j.last + 1 - 1) j.last = min (j.last + 2 - 1) j.last := by omega
        unfold Job.countRead
        simp only [hsent, hacks]
      · rw [hnext, j.answer_end]
  | advance s' hdata =>
      rw [hflag] at hdata
      cases hdata
  | advanceAsking s' t' hdata =>
      rw [hflag] at hdata
      cases hdata
  | old hdata =>
      rw [hflag] at hdata
      cases hdata
  | later s' t' hdata =>
      rw [hflag] at hdata
      cases hdata
  | early t' hend hearly => omega
  | pass hdata hend =>
      have := hend (by rw [hitem]; rfl)
      omega

/-- A client that nothing disturbs reads the next item and answers it, or comes nearer to its next
wait. -/
theorem HasRead.step (h : d.HasRead j source r)
    (hqueue : ∀ x rest, queue = x :: rest →
      r ≤ j.last + 1 ∧ x.source = source ∧ x.packet = .ok (j.item r))
    (hg : Goes j limit d queue (.next d' queue' sent)) :
    (queue' = queue ∧ sent = [] ∧ d'.HasRead j source r ∧ d'.urge < d.urge) ∨
    (r ≤ j.last + 1 ∧ (∃ x, queue = x :: queue') ∧ d'.HasRead j source (r + 1) ∧
      sent = replies j r) := by
  have hat := h.stage
  cases hg with
  | ask _ hstage =>
      rw [hstage] at hat
      exact hat.elim
  | beginWait _ hstage hpatient =>
      rw [hstage] at hat
      refine Or.inl ⟨rfl, rfl, ⟨h.creatable, h.tries, h.statistics, hat.1⟩, ?_⟩
      unfold urge
      rw [hstage]
      exact Nat.zero_lt_one
  | ignoreAnswer x _ t hstage hother =>
      rw [hstage] at hat
      obtain ⟨-, -, hp⟩ := hqueue x _ rfl
      have hzero : r = 0 := hat
      subst hzero
      exact absurd rfl (hother _ hp)
  | granted x _ p hstage hp hflag =>
      rw [hstage] at hat
      obtain ⟨hle, hsource, -⟩ := hqueue x _ rfl
      have hzero : r = 0 := hat
      subst hzero
      exact Or.inr ⟨hle, ⟨x, rfl⟩, ⟨h.creatable, h.tries, h.statistics, rfl, hsource⟩, rfl⟩
  | standIn x _ p hstage hp hflag =>
      rw [hstage] at hat
      obtain ⟨-, -, hp'⟩ := hqueue x _ rfl
      have hzero : r = 0 := hat
      subst hzero
      rw [hp] at hp'
      cases hp'
      rcases hflag with hflag | hflag <;> cases hflag
  | opened _ hstage =>
      rw [hstage] at hat
      obtain ⟨rfl, hpeer⟩ := hat
      refine Or.inl ⟨rfl, rfl, ⟨h.creatable, h.tries, h.statistics, Nat.le_refl 1,
        Nat.le_add_left 1 _, rfl, rfl, hpeer⟩, ?_⟩
      unfold urge
      rw [hstage]
      exact Nat.zero_lt_one
  | openedWith _ p reply hstage htakes =>
      rw [hstage] at hat
      exact hat.elim
  | ignore x _ t s hstage hother =>
      rw [hstage] at hat
      obtain ⟨-, -, -, -, hpeer⟩ := hat
      obtain ⟨-, hsource, hp⟩ := hqueue x _ rfl
      rcases hother with hne | hnone
      · exact absurd (hsource.trans hpeer.symm) hne
      · exact absurd hp (hnone _)
  | take x _ p s reply hstage hsource hp htakes =>
      rw [hstage] at hat
      obtain ⟨hle, -, hp'⟩ := hqueue x _ rfl
      rw [hp] at hp'
      cases hp'
      have hreplies : replies j r = [j.answer r] := if_neg (by have := hat.1; omega)
      rw [hreplies]
      by_cases hlast : r ≤ j.last
      · exact Or.inr ⟨hle, ⟨x, rfl⟩, h.take_data hstage hlast htakes⟩
      · obtain rfl : r = j.last + 1 := by omega
        exact Or.inr ⟨hle, ⟨x, rfl⟩, h.take_end hstage htakes⟩

/-- It ends only when it has read everything, and well. -/
theorem HasRead.ends {result : Except Stop Statistics} (h : d.HasRead j source r)
    (hfits : d.Fits j limit)
    (hqueue : ∀ x rest, queue = x :: rest →
      r ≤ j.last + 1 ∧ x.source = source ∧ x.packet = .ok (j.item r))
    (hg : Goes j limit d queue (.stop result)) :
    r = j.last + 2 ∧ result = .ok j.received ∧ d.urge = 1 := by
  have hat := h.stage
  cases hg with
  | giveUp _ _ hstage hpatient =>
      rw [hstage] at hat
      obtain ⟨-, hzero⟩ := hat
      have htries := h.tries
      refine absurd ⟨?_, ?_⟩ hpatient <;> omega
  | refused x _ _ p hstage hp hflag =>
      rw [hstage] at hat
      obtain ⟨-, -, hp'⟩ := hqueue x _ rfl
      have hzero : r = 0 := hat
      subst hzero
      rw [hp] at hp'
      cases hp'
      cases hflag
  | uncreatable _ _ _ hstage hfetch =>
      rw [h.creatable] at hfetch
      cases hfetch
  | silent _ s _ hstage =>
      rw [hstage] at hat
      exact hat.elim
  | finish _ s hstage =>
      rw [hstage] at hat
      obtain ⟨hr, -⟩ := hat
      have hsession : s.Fits j limit := hfits.session s (by rw [session, hstage])
      have hnext : s.next = j.last + 1 := hfits.complete s hstage
      have htotal : s.buffer.bytesWritten = j.file.length := by
        rw [hsession.total, show s.buffer.next = j.last + 1 from hnext, Nat.add_sub_cancel,
          Consignment.upTo_last]
      have hdigest : s.buffer.digest = Crc32.ofBytes j.file := by
        rw [hsession.digest, hnext, Nat.add_sub_cancel, Consignment.upTo_last]
      have hsent : max 1 (j.last + 2) = j.last + 2 := by omega
      have hacks : min (j.last + 2 - 1) j.last = j.last := by omega
      refine ⟨hr, ?_, ?_⟩
      · rw [h.statistics, htotal, hdigest, hr]
        unfold Job.countRead Job.received
        simp only [hsent, hacks]
      · unfold urge
        rw [hstage]

/-- A client that waits has read all that has come, but not everything. -/
theorem HasRead.waits (h : d.HasRead j source r) (hg : Goes j limit d queue .wait) :
    queue = [] ∧ r ≤ j.last + 1 := by
  have hat := h.stage
  cases hg with
  | wait hstage =>
      refine ⟨rfl, ?_⟩
      rcases hstage with hstage | ⟨s, hstage⟩
      · rw [hstage] at hat
        have hzero : r = 0 := hat
        omega
      · rw [hstage] at hat
        exact hat.2.1

/-- Where its packets come from, once it has read one. -/
theorem HasRead.peer (h : d.HasRead j source r) (hone : 1 ≤ r) : d.peer = source := by
  have hat := h.stage
  generalize hstage : d.stage = stage at hat
  unfold At at hat
  split at hat
  · omega
  · omega
  · exact hat.2
  · exact hat.2.2.2.2
  · exact hat.2
  · exact hat.elim
  · exact hat.elim
  · exact hat.elim

end Download

/-! ## The transfer -/

namespace Serving

/-- An upload that has sent `k` items and read `q` answers. -/
structure HasSent (j : Job) (k q : Nat) (s : Serving) (activity : Activity) : Prop where
  sent : 1 ≤ k ∧ k ≤ j.last + 2
  read : q + 1 ≤ k
  current : s.window.current = min k (j.last + 1)
  lower : s.window.lower = min (q + 1) (j.last + 1)
  ended : s.Ended ↔ k = j.last + 2
  done : activity = .done ↔ q = j.last + 1
  statistics : s.statistics = j.countSent k q
  tries : 1 ≤ s.retry.maxTries ∧ s.retry.maxTries < limit32
  timely : ∀ goal, activity ≠ .overdue goal
  rested : activity = .sending ∨ (∃ goal, activity = .listening goal) → s.retry.count = 0

variable {j : Job} {k q : Nat} {s s' : Serving} {activity activity' : Activity}
  {queue queue' : List Arrival} {sent : List Packet}

theorem hasSent_opened {config : Config} (client : Address)
    (htries : 1 ≤ config.maxTries ∧ config.maxTries < limit32) :
    (opened config j client).HasSent j 1 0 .sending where
  sent := ⟨Nat.le_refl 1, by omega⟩
  read := Nat.le_refl 1
  current := (Nat.min_eq_left (Nat.le_add_left 1 j.last)).symm
  lower := (Nat.min_eq_left (Nat.le_add_left 1 j.last)).symm
  ended := ⟨fun h => absurd rfl h, fun h => by omega⟩
  done := ⟨fun h => (by cases h), fun h => by omega⟩
  statistics := by
    have hnone : min (1 - 1) j.last = 0 := by omega
    unfold opened Job.countSent
    simp only [hnone, Consignment.upTo_zero, List.length_nil]
  tries := htries
  timely _ h := by cases h
  rested _ := rfl

/-- Everything that the client has answered still waits in the window, or the end has been said. -/
theorem HasSent.tells (h : s.HasSent j k q activity) (hfits : s.Fits j) (hsent : q + 1 < k) :
    s.Tells (j.answer (q + 1)) := by
  have hword := j.last_lt
  have hlower := h.lower
  have hcurrent := h.current
  by_cases hlast : q + 1 ≤ j.last
  · rw [j.answer_ack hlast]
    refine Or.inl ⟨rfl, ?_⟩
    rw [Packet.seq_control .ack (by omega)]
    exact ⟨by omega, by omega⟩
  · have hk := h.sent
    obtain rfl : q = j.last := by omega
    obtain ⟨number, hnumber⟩ := Option.ne_none_iff_exists'.mp (h.ended.mpr (by omega))
    rw [j.answer_end]
    refine Or.inr (Or.inr ⟨rfl, ?_⟩)
    rw [Packet.seq_control .eofAck (by omega), hnumber, (hfits.ended number hnumber).1]

/-- Before it is done an upload has not read the last answer. -/
theorem HasSent.unread (h : s.HasSent j k q activity) (hdone : activity ≠ .done)
    (hdone' : activity' ≠ .done) : activity' = .done ↔ q = j.last + 1 :=
  ⟨fun h' => absurd h' hdone', fun hq => absurd (h.done.mpr hq) hdone⟩

/-- An upload that neither sends nor reads has still sent and read the same. -/
theorem HasSent.goes_on (h : s.HasSent j k q activity) (hdone : activity ≠ .done)
    (hdone' : activity' ≠ .done) (hwindow : s'.window = s.window)
    (hend : s'.eofNumber = s.eofNumber) (hcounted : s'.statistics = s.statistics)
    (hmax : s'.retry.maxTries = s.retry.maxTries) (htimely : ∀ goal, activity' ≠ .overdue goal)
    (hrested : activity' = .sending ∨ (∃ goal, activity' = .listening goal) →
      s'.retry.count = 0) : s'.HasSent j k q activity' where
  sent := h.sent
  read := h.read
  current := hwindow ▸ h.current
  lower := hwindow ▸ h.lower
  ended := by
    unfold Ended
    rw [hend]
    exact h.ended
  done := h.unread hdone hdone'
  statistics := hcounted ▸ h.statistics
  tries := hmax ▸ h.tries
  timely := htimely
  rested := hrested

/-- The next item is a piece while the file has more. -/
theorem HasSent.after_piece (h : s.HasSent j k q .sending) (hdoing : ¬ s.Ended)
    (hmore : s.window.current ≤ j.last) :
    k = s.window.current ∧ (s.sentPiece j).HasSent j (k + 1) q (.listening .more) := by
  have hk := h.sent
  have hread := h.read
  have hcurrent := h.current
  obtain rfl : k = s.window.current := by omega
  refine ⟨rfl, ⟨by omega, by omega⟩, by omega, ?_, h.lower, ?_, h.unread (by simp) (by simp), ?_,
    h.tries, by simp, fun _ => h.rested (Or.inl rfl)⟩
  · show s.window.current + 1 = _
    omega
  · exact ⟨fun hended => absurd hended hdoing, fun hk => by omega⟩
  · rw [← j.countSent_piece q hk.1 hmore, ← h.statistics]
    rfl

/-- Behind the last piece the next item is the end. -/
theorem HasSent.after_announce (h : s.HasSent j k q .sending) (hdoing : ¬ s.Ended)
    (hend : s.window.current = j.last + 1) :
    k = j.last + 1 ∧ (s.saidEnd j).HasSent j (k + 1) q (.listening .farewell) := by
  have hk := h.sent
  have hread := h.read
  have hcurrent := h.current
  have hnot : k ≠ j.last + 2 := fun hk => hdoing (h.ended.mpr hk)
  obtain rfl : k = j.last + 1 := by omega
  refine ⟨rfl, ⟨by omega, by omega⟩, by omega, ?_, h.lower, ?_, h.unread (by simp) (by simp), ?_,
    h.tries, by simp, fun _ => h.rested (Or.inl rfl)⟩
  · show s.window.current = _
    omega
  · exact ⟨fun _ => rfl, fun _ => Option.some_ne_none _⟩
  · show ({ s.statistics with packetsSent := s.statistics.packetsSent + 1 } : Statistics) = _
    have hall : min (j.last + 1 - 1) j.last = min (j.last + 1 + 1 - 1) j.last := by omega
    rw [h.statistics]
    unfold Job.countSent
    simp only [hall]

/-- The next answer acknowledges one more piece. -/
theorem HasSent.after_ack {goal : Goal} (h : s.HasSent j k q (.listening goal))
    (hsent : q + 1 < k) (hlast : q + 1 ≤ j.last) :
    (s.heardAck (s.window.passTo (q + 1 + 1))).HasSent j k (q + 1) (.listening goal) := by
  refine ⟨h.sent, by omega, h.current, ?_, h.ended, ?_, ?_, h.tries, by simp,
    fun _ => h.rested (Or.inr ⟨goal, rfl⟩)⟩
  · show q + 1 + 1 = _
    omega
  · exact ⟨fun hdone => (by cases hdone), fun hq => by omega⟩
  · show ({ s.statistics with acksReceived := s.statistics.acksReceived + 1 } : Statistics) = _
    have hone : min q j.last + 1 = min (q + 1) j.last := by omega
    rw [h.statistics]
    unfold Job.countSent
    simp only [hone]

/-- The last answer confirms the end. -/
theorem HasSent.after_confirmation (h : s.HasSent j k j.last activity) (hsent : j.last + 1 < k) :
    s.HasSent j k (j.last + 1) .done := by
  have hlower := h.lower
  refine ⟨h.sent, hsent, h.current, by omega, h.ended, ⟨fun _ => rfl, fun _ => rfl⟩, ?_, h.tries,
    by simp, by simp⟩
  have hall : min j.last j.last = min (j.last + 1) j.last := by omega
  rw [h.statistics]
  unfold Job.countSent
  simp only [hall]

/-- An upload that nothing disturbs sends the next item, or reads the next answer, or comes nearer to its
next wait. -/
theorem HasSent.step (h : s.HasSent j k q activity) (hfits : s.Fits j) (hdoing : s.Doing activity)
    (hqueue : ∀ x rest, queue = x :: rest →
      q + 1 < k ∧ x.source = s.client ∧ x.packet = .ok (j.answer (q + 1)))
    (hg : Goes j s activity queue (.next (.serving s' activity') queue' sent)) :
    (queue' = queue ∧ s'.HasSent j (k + 1) q activity' ∧ sent = [j.item k]) ∨
    ((∃ x, queue = x :: queue') ∧ s'.HasSent j k (q + 1) activity' ∧ sent = []) ∨
    (queue' = queue ∧ s'.HasSent j k q activity' ∧ sent = [] ∧
      Scenario.Talk.urge s' activity' queue < Scenario.Talk.urge s activity queue) := by
  have hword := j.last_lt
  have hcount := h.rested
  cases hg with
  | piece _ hopen hmore =>
      obtain ⟨rfl, hafter⟩ := h.after_piece hdoing hmore
      refine Or.inl ⟨rfl, hafter, ?_⟩
      rw [j.item_data h.sent.1 hmore]
  | announce _ hopen hend =>
      obtain ⟨rfl, hafter⟩ := h.after_announce hdoing hend
      refine Or.inl ⟨rfl, hafter, ?_⟩
      rw [j.item_end]
  | closed _ hclosed =>
      exact Or.inr (Or.inr ⟨rfl, h.goes_on (by simp) (by simp) rfl rfl rfl rfl (by simp)
        fun _ => hcount (Or.inl rfl), rfl, Scenario.Talk.urge_lt (j := j) (.closed _ hclosed)⟩)
  | pass goal x _ t hsame hother =>
      obtain ⟨hsent, hsource, hp⟩ := hqueue x _ rfl
      rcases hother with hne | hnot
      · exact absurd hsource hne
      · exact absurd (h.tells hfits hsent) (hnot _ hp)
  | acked goal x _ p hsource hp hflag hseq =>
      obtain ⟨hsent, -, hp'⟩ := hqueue x _ rfl
      rw [hp] at hp'
      cases hp'
      by_cases hlast : q + 1 ≤ j.last
      · have hnumber : (j.answer (q + 1)).seq = q + 1 := by
          rw [j.answer_ack hlast]
          exact Packet.seq_control .ack (by omega)
        rw [hnumber]
        exact Or.inr (Or.inl ⟨⟨x, rfl⟩, h.after_ack hsent hlast, rfl⟩)
      · have hk := h.sent
        obtain rfl : q = j.last := by omega
        rw [j.answer_end] at hflag
        cases hflag
  | asked goal x _ p hsource hp hflag hseq =>
      obtain ⟨-, -, hp'⟩ := hqueue x _ rfl
      rw [hp] at hp'
      cases hp'
      unfold Job.answer at hflag
      split at hflag <;> cases hflag
  | confirmed goal x _ p hsource hp hflag hseq =>
      obtain ⟨hsent, -, hp'⟩ := hqueue x _ rfl
      rw [hp] at hp'
      cases hp'
      have hk := h.sent
      obtain rfl : q = j.last := by
        by_cases hlast : q + 1 ≤ j.last
        · rw [j.answer_ack hlast] at hflag
          cases hflag
        · omega
      exact Or.inr (Or.inl ⟨⟨x, rfl⟩, h.after_confirmation hsent, rfl⟩)
  | goOn goal hgoal =>
      exact Or.inr (Or.inr ⟨rfl, h.goes_on (by simp) (by simp) rfl rfl rfl rfl (by simp)
        fun _ => hcount (Or.inr ⟨goal, rfl⟩), rfl,
        Scenario.Talk.urge_lt (j := j) (.goOn goal hgoal)⟩)
  | rest goal hgoal hpatient =>
      exact Or.inr (Or.inr ⟨rfl, h.goes_on (by simp) (by simp) rfl rfl rfl rfl (by simp) (by simp),
        rfl, Scenario.Talk.urge_lt (j := j) (.rest goal hgoal hpatient)⟩)
  | wake goal x queue =>
      exact Or.inr (Or.inr ⟨rfl, h.goes_on (by simp) (by simp) rfl rfl rfl rfl (by simp)
        fun _ => rfl, rfl, Scenario.Talk.urge_lt (j := j) (.wake goal x queue)⟩)
  | again goal _ hheld => exact absurd rfl (h.timely goal)
  | announceAgain _ hall => exact absurd rfl (h.timely .farewell)

/-- It ends only when it has read all answers, and well. -/
theorem HasSent.ends {result : Except Stop Statistics} (h : s.HasSent j k q activity)
    (hfits : s.Fits j) (hg : Goes j s activity queue (.stop result)) :
    q = j.last + 1 ∧ result = .ok j.transferred ∧ Scenario.Talk.urge s activity queue = 1 := by
  cases hg with
  | giveUp goal hpatient =>
      have hzero := h.rested (Or.inr ⟨goal, rfl⟩)
      have htries := h.tries
      refine absurd ⟨?_, ?_⟩ hpatient <;> omega
  | finish =>
      have hq := h.done.mp rfl
      have hk := h.sent
      have hread := h.read
      obtain rfl : k = j.last + 2 := by omega
      have hcurrent : s.window.current = j.last + 1 := by
        rw [h.current]
        omega
      have hdigest : s.crc.digest = Crc32.ofBytes j.file := by
        rw [hfits.crc, hcurrent, Nat.add_sub_cancel, Consignment.upTo_last]
        rfl
      refine ⟨hq, ?_, rfl⟩
      rw [hdigest, h.statistics, hq, j.countSent_last]

/-- An upload that waits has something to wait for: it has not read every answer. -/
theorem HasSent.waits (h : s.HasSent j k q activity) (hfits : s.Fits j) (hdoing : s.Doing activity)
    (hg : Goes j s activity queue .wait) : queue = [] ∧ q + 1 < k := by
  have hk := h.sent
  have hread := h.read
  have hcurrent := h.current
  have hlower := h.lower
  have hsize := hfits.size
  have hwindow := j.window_range
  cases hg with
  | wait goal =>
      refine ⟨rfl, ?_⟩
      cases goal with
      | more => exact hdoing.elim
      | room =>
          obtain ⟨hended, hclosed, -⟩ := hdoing
          have hnot : k ≠ j.last + 2 := fun hk => hended (h.ended.mpr hk)
          unfold Open at hclosed
          omega
      | farewell =>
          have hall := h.ended.mp hdoing.1
          have hnot : q ≠ j.last + 1 := fun hq => by
            have := h.done.mpr hq
            cases this
          omega

end Serving

namespace Upload

/-- An upload that has sent `k` items and read `q` answers; before the first its file is not open. -/
def HasSent (j : Job) (k q : Nat) : Upload → Prop
  | .opening config _ _ _ => k = 0 ∧ q = 0 ∧ 1 ≤ config.maxTries ∧ config.maxTries < limit32
  | .refused _ _ => False
  | .serving s activity => s.HasSent j k q activity

/-- How urgent the next step of an upload is that neither reads nor sends. -/
def urge (queue : List Arrival) : Upload → Nat
  | .serving s activity => Scenario.Talk.urge s activity queue
  | _ => 0

variable {j : Job} {v : View} {k q : Nat} {u u' : Upload} {queue queue' : List Arrival}
  {sent : List Packet}

/-- An upload never sends more than everything, and reads no answer to what it has not sent. -/
theorem HasSent.bounds (h : u.HasSent j k q) : k ≤ j.last + 2 ∧ q ≤ k - 1 := by
  match u with
  | .opening _ _ _ _ =>
      obtain ⟨rfl, rfl, -⟩ := h
      omega
  | .refused _ _ => exact h.elim
  | .serving s activity =>
      have hk := Serving.HasSent.sent h
      have hread := Serving.HasSent.read h
      omega

/-- An upload that nothing disturbs sends the next item, or reads the next answer, or comes nearer to its
next wait. -/
theorem HasSent.step (h : u.HasSent j k q) (hkeeps : u.Keeps j v)
    (hqueue : ∀ x rest, queue = x :: rest →
      q + 1 < k ∧ x.source = v.client ∧ x.packet = .ok (j.answer (q + 1)))
    (hstep : Machine.step u queue = .next u' queue' sent) :
    (queue' = queue ∧ u'.HasSent j (k + 1) q ∧ sent = [j.item k]) ∨
    ((∃ x, queue = x :: queue') ∧ u'.HasSent j k (q + 1) ∧ sent = []) ∨
    (queue' = queue ∧ u'.HasSent j k q ∧ sent = [] ∧ u'.urge queue < u.urge queue) := by
  match u with
  | .opening config request client file =>
      obtain ⟨rfl, -, rfl⟩ := hkeeps
      obtain ⟨rfl, rfl, htries⟩ := h
      rw [step_opening, Move.next.injEq] at hstep
      obtain ⟨rfl, rfl, rfl⟩ := hstep
      exact Or.inl ⟨rfl, Serving.hasSent_opened client htries, rfl⟩
  | .refused _ _ => exact h.elim
  | .serving s activity =>
      have hgoes := Serving.step_spec hkeeps.fits hkeeps.doing queue
      change s.step queue activity = _ at hstep
      rw [hstep] at hgoes
      obtain ⟨s', activity', rfl⟩ : ∃ s' activity', u' = .serving s' activity' := by
        cases hgoes <;> exact ⟨_, _, rfl⟩
      have hclient : s.client = v.client := Serving.Keeps.client hkeeps
      rw [← hclient] at hqueue
      exact Serving.HasSent.step h hkeeps.fits hkeeps.doing hqueue hgoes

/-- It ends only when it has read all answers, and well. -/
theorem HasSent.ends {result : Except Stop Statistics} (h : u.HasSent j k q) (hkeeps : u.Keeps j v)
    (hstep : Machine.step u queue = .stop result) :
    q = j.last + 1 ∧ result = .ok j.transferred ∧ u.urge queue = 1 := by
  match u with
  | .opening config request client file =>
      obtain ⟨rfl, -, rfl⟩ := hkeeps
      rw [step_opening] at hstep
      cases hstep
  | .refused _ _ => exact h.elim
  | .serving s activity =>
      have hgoes := Serving.step_spec hkeeps.fits hkeeps.doing queue
      change s.step queue activity = _ at hstep
      rw [hstep] at hgoes
      exact Serving.HasSent.ends h hkeeps.fits hgoes

/-- An upload that waits has sent an item to which it has not read the answer. -/
theorem HasSent.waits (h : u.HasSent j k q) (hkeeps : u.Keeps j v)
    (hstep : Machine.step u queue = .wait) : queue = [] ∧ q + 1 < k := by
  match u with
  | .opening config request client file =>
      obtain ⟨rfl, -, rfl⟩ := hkeeps
      rw [step_opening] at hstep
      cases hstep
  | .refused _ _ => exact h.elim
  | .serving s activity =>
      have hgoes := Serving.step_spec hkeeps.fits hkeeps.doing queue
      change s.step queue activity = _ at hstep
      rw [hstep] at hgoes
      exact Serving.HasSent.waits h hkeeps.fits hkeeps.doing hgoes

end Upload

end SelectiveReject
