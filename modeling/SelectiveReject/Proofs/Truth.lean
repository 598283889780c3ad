import SelectiveReject.Proofs.Sending
import SelectiveReject.Proofs.Faults

/-!
# What a datagram may say

How far both sides of a transfer have come is a `View`: the number that the client waits for, a number
that no upload has sent, and whether the end has been announced and confirmed.  A packet may say what
such a view bears out, and since nothing in it ever goes back, what was true when a datagram left is
true whenever it arrives (`Honest.mono`).

The steps of both machines keep to this: from honest datagrams they come to a view that is further on,
and say only what it bears out (`Download.Goes.keeps`, `Upload.step_keeps`).
-/

namespace SelectiveReject

/-- How far a transfer has come. -/
structure View where
  client : Address
  /-- What the client writes next. -/
  next : Nat
  /-- No upload has sent a piece with this number or one above. -/
  horizon : Nat
  /-- The end of the file has been announced. -/
  ended : Prop
  /-- The client has confirmed the end. -/
  finished : Prop

/-- The view `v'` is the same as `v` or further on. -/
structure View.Le (v v' : View) : Prop where
  client : v'.client = v.client
  next : v.next ≤ v'.next
  horizon : v.horizon ≤ v'.horizon
  ended : v.ended → v'.ended
  finished : v.finished → v'.finished

namespace Packet

/-- The packet carries a piece that has been sent, from the client's window or before. -/
structure Carries (j : Job) (v : View) (p : Packet) : Prop where
  first : 1 ≤ p.seq
  sent : p.seq < v.horizon
  near : p.seq < v.next + j.window
  payload : p.payload = j.piece p.seq

/-- What a packet says is borne out by the view. -/
def Honest (j : Job) (v : View) (source : Address) (p : Packet) : Prop :=
  match p.flag with
  | .ack => p.seq < v.next
  | .srej => p.seq ≤ v.next
  | .fname => p.payload = j.request.toPayload ∧ source = v.client
  | .fnameOk | .fnameBad => True
  | .endOfFile => p.seq = j.last + 1 ∧ v.ended
  | .data => p.Carries j v
  | .srejData | .timeoutData => p.Carries j v ∧ p.seq ≤ v.next
  | .eofAck => p.seq = j.last + 1 ∧ v.finished

variable {j : Job} {v v' : View} {source : Address} {p : Packet}

theorem Carries.mono (h : p.Carries j v) (hle : v.Le v') : p.Carries j v' := by
  have := hle.horizon
  have := hle.next
  have := h.sent
  have := h.near
  exact ⟨h.first, by omega, by omega, h.payload⟩

theorem Honest.mono (h : p.Honest j v source) (hle : v.Le v') : p.Honest j v' source := by
  have hnext := hle.next
  unfold Honest at *
  cases hflag : p.flag <;> simp only [hflag] at h ⊢
  case ack => omega
  case srej => omega
  case fname => exact ⟨h.1, h.2.trans hle.client.symm⟩
  case endOfFile => exact ⟨h.1, hle.ended h.2⟩
  case data => exact h.mono hle
  case srejData => exact ⟨h.1.mono hle, by omega⟩
  case timeoutData => exact ⟨h.1.mono hle, by omega⟩
  case eofAck => exact ⟨h.1, hle.finished h.2⟩

theorem Honest.carries (h : p.Honest j v source) (hdata : p.flag.isData = true) : p.Carries j v := by
  unfold Honest at h
  cases hflag : p.flag <;> simp only [hflag] at h hdata
  case data => exact h
  case srejData => exact h.1
  case timeoutData => exact h.1
  all_goals cases hdata

theorem Honest.sound (h : p.Honest j v source) : p.Sound j v.horizon where
  limit hdata := (h.carries hdata).sent
  payload hdata := (h.carries hdata).payload

end Packet

/-! ## Datagrams -/

/-- A datagram that holds a packet, if it holds one, that is borne out by the view. -/
structure Arrival.Honest (j : Job) (v : View) (x : Arrival) : Prop where
  short : x.bytes.length ≤ Packet.maxLength
  honest : ∀ p, x.packet = .ok p → p.Honest j v x.source

namespace Arrival

variable {j : Job} {v v' : View} {x : Arrival} {source : Address} {bytes : Bytes} {p : Packet}

theorem Honest.mono (h : x.Honest j v) (hle : v.Le v') : x.Honest j v' :=
  ⟨h.short, fun p hp => (h.honest p hp).mono hle⟩

/-- A datagram that is short enough is received as a whole. -/
theorem packet_eq (h : bytes.length ≤ Packet.maxLength) :
    packet ⟨source, bytes⟩ = Packet.decode bytes := by
  unfold packet received
  rw [List.take_of_length_le]
  simp only [Packet.maxLength, Packet.headerLength, Packet.maxPayload, receiveLimit] at *
  omega

/-- What leaves a channel is honest if the packets are. -/
theorem honest_of_frames (h : Frames bytes p) (hshort : p.payload.length ≤ Packet.maxPayload)
    (htrue : p.Honest j v source) : Honest j v ⟨source, bytes⟩ := by
  have hlength : bytes.length ≤ Packet.maxLength := by
    rw [h.length]
    exact Nat.add_le_add_left hshort _
  refine ⟨hlength, fun q hq => ?_⟩
  rw [packet_eq hlength] at hq
  rcases h.decode hshort with hp | hcorrupt
  · rw [hp] at hq
    cases hq
    exact htrue
  · rw [hcorrupt] at hq
    cases hq

/-- A bit turned over in an intact datagram leaves one that says nothing. -/
theorem honest_of_flipBit (hshort : bytes.length ≤ Packet.maxLength)
    (hp : (Packet.decode bytes).isOk = true) {bit : Nat} (hbit : bit < 8 * bytes.length) :
    Honest j v ⟨source, flipBit bytes bit⟩ := by
  have hlength : (flipBit bytes bit).length ≤ Packet.maxLength := by rwa [length_flipBit]
  have hlimit : bytes.length ≤ receiveLimit := by
    simp only [Packet.maxLength, Packet.headerLength, Packet.maxPayload, receiveLimit] at *
    omega
  refine ⟨hlength, fun q hq => ?_⟩
  rw [packet_eq hlength] at hq
  cases hdecode : Packet.decode bytes with
  | error e =>
      rw [hdecode] at hp
      cases hp
  | ok p =>
      rw [Packet.decode_flipBit hdecode hlimit hbit] at hq
      cases hq

end Arrival

/-- The packet fits a datagram, and what it says is borne out by the view. -/
def Packet.Sendable (j : Job) (v : View) (source : Address) (p : Packet) : Prop :=
  p.payload.length ≤ maxPayload ∧ p.Honest j v source

theorem Channel.sendAll_honest {c : Channel} {link : Link} {faults : FaultModel} {j : Job}
    {v : View} {source : Address} {sent : List Packet}
    (hsent : ∀ p ∈ sent, p.Sendable j v source) {d : Departure}
    (hd : d ∈ (c.sendAll link faults sent).2.2.2) : Arrival.Honest j v ⟨source, d.bytes⟩ := by
  obtain ⟨-, p, hp, hframes⟩ := sendAll_departure hd
  obtain ⟨hshort, htrue⟩ := hsent p hp
  exact Arrival.honest_of_frames hframes hshort htrue

/-! ## The client -/

namespace Download

/-- A download that has come as far as the view says. -/
structure Keeps (j : Job) (v : View) (d : Download) : Prop where
  fits : d.Fits j v.horizon
  next : v.next = d.next
  finished : v.finished ↔ d.Finished
  ended : d.Finished → v.ended
  first : ∀ p, d.stage = .answered (some p) → p.Honest j v d.peer

/-- The view that the download has come to. -/
def seen (d : Download) (v : View) : View := { v with next := d.next, finished := d.Finished }

variable {j : Job} {v : View} {d : Download}

theorem next_le (h : d.Fits j v.horizon) (hone : 1 ≤ v.horizon) : d.next ≤ v.horizon := by
  cases hsession : d.session with
  | none =>
      rw [next_of_no_session hsession]
      exact hone
  | some s =>
      rw [next_of_session hsession]
      exact (h.session s hsession).next_le

theorem one_le_next (h : d.Fits j v.horizon) : 1 ≤ d.next := by
  cases hsession : d.session with
  | none =>
      exact Nat.le_of_eq (next_of_no_session hsession).symm
  | some s =>
      rw [next_of_session hsession]
      exact (h.session s hsession).one_le_next

end Download

namespace Session

variable {j : Job} {v : View} {s : Session} {t : Statistics} {p : Packet} {r : Reply}

/-- The answer to a packet says what the session has come to; and it says that the file is complete only
when it is. -/
theorem Takes.honest (h : s.Fits j v.horizon) (hword : v.horizon < limit32) {source : Address}
    (hp : p.Honest j v source) (ht : Takes j v.horizon s t p r) {v' : View}
    (hnext : v'.next = r.session.next) (hfinished : r.complete = true → v'.finished) :
    (∀ q ∈ r.packets, q.Sendable j v' v'.client) ∧
      (r.complete = true → r.session.next = j.last + 1 ∧ v.ended) := by
  obtain ⟨hfits', hle⟩ := ht.fits h
  have hlow := hfits'.one_le_next
  have hhigh := hfits'.next_le
  have hack : (Packet.control .ack (r.session.next - 1)).Sendable j v' v'.client := by
    refine ⟨Nat.zero_le _, ?_⟩
    show (Packet.control .ack (r.session.next - 1)).seq < v'.next
    rw [Packet.seq_control _ (by omega), hnext]
    omega
  have hsrej : (Packet.control .srej r.session.next).Sendable j v' v'.client := by
    refine ⟨Nat.zero_le _, ?_⟩
    show (Packet.control .srej r.session.next).seq ≤ v'.next
    exact Nat.le_of_eq (by rw [Packet.seq_control _ (by omega), hnext])
  cases ht with
  | old => simpa using hack
  | advance => simpa using hack
  | advanceAsking =>
      refine ⟨?_, by simp⟩
      intro q hq
      rw [List.mem_cons, List.mem_singleton] at hq
      rcases hq with rfl | rfl
      · exact hack
      · exact hsrej
  | later s' t' hdata hseq hfits hnext' =>
      rw [← hnext']
      simpa using hsrej
  | early => simpa using hsrej
  | pass => simp
  | finish hend hseq =>
      rw [Packet.Honest, hend] at hp
      obtain ⟨hlast, hended⟩ := hp
      have hnext' : s.next = j.last + 1 := by rw [← hseq, hlast]
      refine ⟨?_, fun _ => ⟨hnext', hended⟩⟩
      intro q hq
      rw [List.mem_singleton] at hq
      subst hq
      refine ⟨Nat.zero_le _, ?_⟩
      show (Packet.control .eofAck s.next).seq = j.last + 1 ∧ v'.finished
      rw [Packet.seq_control _ (Nat.lt_of_le_of_lt hhigh hword)]
      exact ⟨hnext', hfinished rfl⟩

end Session

namespace Download

variable {j : Job} {v : View} {d d' : Download} {queue queue' : List Arrival} {sent : List Packet}

/-- Taking a packet keeps the download in step with the view. -/
theorem Keeps.after {s : Session} {t : Statistics} {p : Packet} {r : Reply} {source : Address}
    (hd : d.Keeps j v) (hs : s.Fits j v.horizon) (hsession : d.next ≤ s.next)
    (hnot : ¬ d.Finished) (hword : v.horizon < limit32) (hp : p.Honest j v source)
    (ht : s.Takes j v.horizon t p r) :
    v.Le ((d.after r).seen v) ∧ (d.after r).Keeps j ((d.after r).seen v) ∧
      ∀ q ∈ r.packets, q.Sendable j ((d.after r).seen v) v.client := by
  obtain ⟨hfits', hle⟩ := ht.fits hs
  obtain ⟨hsent, hcomplete⟩ := @Session.Takes.honest j v s t p r hs hword source hp ht
    ((d.after r).seen v) (next_after d r) finished_after.mpr
  have hnext := hd.next
  refine ⟨⟨rfl, ?_, Nat.le_refl _, id, fun h => absurd (hd.finished.mp h) hnot⟩,
    ⟨⟨hd.fits.request, ?_, ?_⟩, rfl, Iff.rfl, ?_, ?_⟩, hsent⟩
  · show v.next ≤ (d.after r).next
    rw [next_after]
    omega
  · intro s' hs'
    rw [session_after] at hs'
    cases hs'
    exact hfits'
  · intro s' hs'
    have hdone : r.complete = true := finished_after.mp ⟨s', hs'⟩
    have hsame := session_after d r
    rw [session, hs'] at hsame
    cases hsame
    exact (hcomplete hdone).1
  · intro h
    exact (hcomplete (finished_after.mp h)).2
  · intro q hq
    unfold Download.after at hq
    cases hc : r.complete <;> rw [hc] at hq <;> simp at hq

/-- A step between stages without a session. -/
theorem Keeps.move (hd : d.Keeps j v) (hbefore : d.session = none) (hafter : d'.session = none)
    (hrequest : d'.request = d.request)
    (hfirst : ∀ p, d'.stage = .answered (some p) → p.Honest j v d'.peer) :
    v.Le (d'.seen v) ∧ d'.Keeps j (d'.seen v) := by
  have hnext : d'.next = v.next := by
    rw [hd.next, next_of_no_session hbefore, next_of_no_session hafter]
  have hno : ∀ {d : Download}, d.session = none → ∀ s, d.stage ≠ .complete s := by
    intro d hnone s hs
    rw [session, hs] at hnone
    cases hnone
  have hnot : ¬ d'.Finished := by
    rintro ⟨s, hs⟩
    exact hno hafter s hs
  have hle : v.Le (d'.seen v) := by
    refine ⟨rfl, Nat.le_of_eq hnext.symm, Nat.le_refl _, id, fun h => ?_⟩
    obtain ⟨s, hs⟩ := hd.finished.mp h
    exact absurd hs (hno hbefore s)
  refine ⟨hle, ⟨⟨hrequest.trans hd.fits.request, ?_, ?_⟩, rfl, Iff.rfl,
    fun h => absurd h hnot, fun p hp => (hfirst p hp).mono hle⟩⟩
  · intro s hs
    rw [hafter] at hs
    cases hs
  · intro s hs
    exact absurd hs (hno hafter s)

/-- From honest datagrams a download comes to a view that is further on, and says only what that bears
out. -/
theorem Goes.keeps (hd : d.Keeps j v) (hone : 1 ≤ v.horizon) (hword : v.horizon < limit32)
    (hqueue : ∀ x ∈ queue, x.Honest j v)
    (hg : Goes j v.horizon d queue (.next d' queue' sent)) :
    v.Le (d'.seen v) ∧ d'.Keeps j (d'.seen v) ∧
      (∀ p ∈ sent, p.Sendable j (d'.seen v) v.client) ∧ ∀ x ∈ queue', x ∈ queue := by
  have hnothing : ∀ v' : View, ∀ p ∈ ([] : List Packet), p.Sendable j v' v.client := by
    intro v' p hp
    cases hp
  have hrequest : j.request.toPacket.Sendable j (d'.seen v) v.client :=
    ⟨FileRequest.length_toPayload j.valid, rfl, rfl⟩
  cases hg with
  | ask _ hstage =>
      obtain ⟨hle, hkeeps⟩ := @Keeps.move j v d
        { d with
          peer := d.server
          statistics := { d.statistics with packetsSent := d.statistics.packetsSent + 1 }
          stage := .asked } hd (by rw [session, hstage]) rfl rfl (by simp)
      exact ⟨hle, hkeeps, by simpa using hrequest, fun _ h => h⟩
  | beginWait _ hstage hpatient =>
      obtain ⟨hle, hkeeps⟩ := @Keeps.move j v d
        { d with retry := { d.retry with count := d.retry.count + 1 }, stage := .handshake } hd
        (by rw [session, hstage]) rfl rfl (by simp)
      exact ⟨hle, hkeeps, hnothing _, fun _ h => h⟩
  | ignoreAnswer x _ t hstage hother =>
      obtain ⟨hle, hkeeps⟩ := @Keeps.move j v d
        { d with retry := d.retry.reset, statistics := t, stage := .asked } hd
        (by rw [session, hstage]) rfl rfl (by simp)
      exact ⟨hle, hkeeps, hnothing _, fun _ h => List.mem_cons_of_mem _ h⟩
  | granted x _ p hstage hp hflag =>
      obtain ⟨hle, hkeeps⟩ := @Keeps.move j v d
        { d with retry := d.retry.reset, peer := x.source, stage := .answered none } hd
        (by rw [session, hstage]) rfl rfl (by simp)
      exact ⟨hle, hkeeps, hnothing _, fun _ h => List.mem_cons_of_mem _ h⟩
  | standIn x _ p hstage hp hflag =>
      obtain ⟨hle, hkeeps⟩ := @Keeps.move j v d
        { d with retry := d.retry.reset, peer := x.source, stage := .answered (some p) } hd
        (by rw [session, hstage]) rfl rfl (by
          intro q hq
          cases hq
          exact (hqueue x List.mem_cons_self).honest p hp)
      exact ⟨hle, hkeeps, hnothing _, fun _ h => List.mem_cons_of_mem _ h⟩
  | opened _ hstage =>
      have hsession : d.session = none := by rw [session, hstage]
      have hnext := hd.next
      rw [next_of_no_session hsession] at hnext
      refine ⟨⟨rfl, Nat.le_of_eq hnext, Nat.le_refl _, id, ?_⟩,
        ⟨⟨hd.fits.request, ?_, by simp⟩, rfl, Iff.rfl, ?_, by simp⟩, hnothing _, fun _ h => h⟩
      · intro h
        obtain ⟨s, hs⟩ := hd.finished.mp h
        rw [hstage] at hs
        cases hs
      · intro s hs
        cases hs
        exact Session.fits_opened hone
      · rintro ⟨s, hs⟩
        cases hs
  | openedWith _ p r hstage htakes =>
      have hsession : d.session = none := by rw [session, hstage]
      have hnot : ¬ d.Finished := by
        rintro ⟨s, hs⟩
        rw [hstage] at hs
        cases hs
      obtain ⟨hle, hkeeps, hsent⟩ := hd.after (Session.fits_opened hone)
        (Nat.le_of_eq (next_of_no_session hsession)) hnot hword (hd.first p hstage) htakes
      exact ⟨hle, hkeeps, hsent, fun _ h => h⟩
  | ignore x _ t s hstage hother =>
      refine ⟨⟨rfl, Nat.le_of_eq hd.next, Nat.le_refl _, id, hd.finished.mp⟩,
        ⟨⟨hd.fits.request, hd.fits.session, hd.fits.complete⟩, rfl, Iff.rfl, hd.ended, ?_⟩,
        hnothing _, fun _ h => List.mem_cons_of_mem _ h⟩
      intro p hp
      change d.stage = .answered (some p) at hp
      rw [hstage] at hp
      cases hp
  | take x _ p s r hstage hsource hp htakes =>
      have hsession : d.session = some s := by rw [session, hstage]
      have hnot : ¬ d.Finished := by
        rintro ⟨s', hs'⟩
        rw [hstage] at hs'
        cases hs'
      obtain ⟨hle, hkeeps, hsent⟩ := hd.after (hd.fits.session s hsession)
        (Nat.le_of_eq (next_of_session hsession)) hnot hword
        ((hqueue x List.mem_cons_self).honest p hp) htakes
      exact ⟨hle, hkeeps, hsent, fun _ h => List.mem_cons_of_mem _ h⟩

/-- A wait that is over changes nothing of this. -/
theorem Keeps.expire (hd : d.Keeps j v) : d.expire.Keeps j v := by
  have hsession : d.expire.session = d.session := by
    unfold session Download.expire
    cases hstage : d.stage <;> simp [hstage]
  have hnext : d.expire.next = d.next := by
    unfold Download.next
    rw [hsession]
  have hfinished : d.expire.Finished ↔ d.Finished := by
    unfold Finished Download.expire
    cases hstage : d.stage <;> simp [hstage]
  refine ⟨⟨?_, ?_, ?_⟩, hd.next.trans hnext.symm, hd.finished.trans hfinished.symm,
    fun h => hd.ended (hfinished.mp h), ?_⟩
  · unfold Download.expire
    split <;> exact hd.fits.request
  · rw [hsession]
    exact hd.fits.session
  · intro s hs
    apply hd.fits.complete
    unfold Download.expire at hs
    split at hs <;> simp_all
  · intro p hp
    unfold Download.expire at *
    split at hp <;> simp_all [hd.first]

/-- A transfer that comes further on leaves the client where it is. -/
theorem Keeps.mono {v' : View} (hd : d.Keeps j v) (hle : v.Le v') (hnext : v'.next = v.next)
    (hfinished : v'.finished ↔ v.finished) : d.Keeps j v' where
  fits := ⟨hd.fits.request, fun s hs => (hd.fits.session s hs).mono hle.horizon, hd.fits.complete⟩
  next := hnext.trans hd.next
  finished := hfinished.trans hd.finished
  ended h := hle.ended (hd.ended h)
  first p hp := (hd.first p hp).mono hle

/-- A download ends well only when the file is complete. -/
theorem Goes.finished {result : Statistics} (hg : Goes j v.horizon d queue (.stop (.ok result))) :
    d.Finished := by
  cases hg with
  | finish _ s hstage => exact ⟨s, hstage⟩

end Download

/-! ## The transfers -/

/-- An upload of the job's file that has come no further than the view says. -/
structure Serving.Keeps (j : Job) (v : View) (s : Serving) (activity : Activity) : Prop where
  fits : s.Fits j
  doing : s.Doing activity
  client : s.client = v.client
  lower : s.window.lower ≤ v.next
  current : s.window.current ≤ v.horizon
  ended : s.Ended → v.ended
  done : activity = .done → v.finished

namespace Upload

/-- The number of the next piece. -/
def current : Upload → Nat
  | .serving s _ => s.window.current
  | _ => 1

/-- The end of the file has been announced. -/
def Ended : Upload → Prop
  | .serving s _ => s.Ended
  | _ => False

/-- The upload is for the job, whether its file is open yet or not. -/
def Keeps (j : Job) (v : View) : Upload → Prop
  | .opening _ request client source =>
      request = j.request ∧ client = v.client ∧ source = .contents j.file
  | .refused _ _ => False
  | .serving s activity => s.Keeps j v activity

variable {j : Job} {v v' : View} {u u' : Upload} {queue queue' : List Arrival}
  {sent : List Packet}

theorem Keeps.mono (hu : u.Keeps j v) (hle : v.Le v') : u.Keeps j v' := by
  match u with
  | .opening _ _ _ _ => exact ⟨hu.1, hu.2.1.trans hle.client.symm, hu.2.2⟩
  | .refused _ _ => exact hu.elim
  | .serving s activity =>
      have hlower := hu.lower
      have hcurrent := hu.current
      have := hle.next
      have := hle.horizon
      exact ⟨hu.fits, hu.doing, hu.client.trans hle.client.symm, by omega, by omega,
        fun h => hle.ended (hu.ended h), fun h => hle.finished (hu.done h)⟩

/-- An upload whose wait is over has come as far as before. -/
theorem expire_same (u : Upload) : u.expire.current = u.current ∧ (u.Ended → u.expire.Ended) := by
  match u with
  | .opening _ _ _ _ | .refused _ _ => exact ⟨rfl, id⟩
  | .serving s .sending | .serving s (.listening _) | .serving s (.overdue _)
  | .serving s .done | .serving s (.waiting _) => exact ⟨rfl, id⟩

theorem Keeps.client (hu : u.Keeps j v) : Machine.peer u = v.client := by
  match u with
  | .opening _ _ _ _ => exact hu.2.1
  | .refused _ _ => exact hu.elim
  | .serving s activity => exact Serving.Keeps.client hu

theorem Keeps.expire (hu : u.Keeps j v) : u.expire.Keeps j v := by
  match u with
  | .opening _ _ _ _ => exact hu
  | .refused _ _ => exact hu
  | .serving s .sending | .serving s (.listening _) | .serving s (.overdue _) | .serving s .done =>
      exact hu
  | .serving s (.waiting goal) =>
      refine ⟨hu.fits, ?_, hu.client, hu.lower, hu.current, hu.ended, by simp⟩
      have hdoing := hu.doing
      cases goal with
      | more => exact hdoing
      | room => exact ⟨hdoing.1, hdoing.2.1⟩
      | farewell => exact hdoing.1

end Upload

namespace Serving

variable {j : Job} {v v' : View} {s s' : Serving} {activity activity' : Activity}
  {queue queue' : List Arrival} {sent : List Packet} {source : Address}

theorem sendable_piece {seq : Nat} {flag : Flag} (hflag : flag.isData = true) (hone : 1 ≤ seq)
    (hword : seq < limit32) (hsent : seq < v.horizon) (hnear : seq < v.next + j.window)
    (hagain : flag ≠ .data → seq ≤ v.next) :
    Packet.Sendable j v source ⟨UInt32.ofNat seq, flag, j.piece seq⟩ := by
  have hseq : Packet.seq ⟨UInt32.ofNat seq, flag, j.piece seq⟩ = seq :=
    Packet.seq_control flag hword
  have hcarries : Packet.Carries j v ⟨UInt32.ofNat seq, flag, j.piece seq⟩ := by
    constructor <;> rw [hseq]
    · exact hone
    · exact hsent
    · exact hnear
  refine ⟨j.length_piece seq, ?_⟩
  cases flag with
  | data => exact hcarries
  | srejData => exact ⟨hcarries, by rw [hseq]; exact hagain (by simp)⟩
  | timeoutData => exact ⟨hcarries, by rw [hseq]; exact hagain (by simp)⟩
  | _ => cases hflag

theorem sendable_end (hended : v.ended) :
    Packet.Sendable j v source (.control .endOfFile (j.last + 1)) := by
  have hlast := j.last_lt
  refine ⟨Nat.zero_le _, ?_⟩
  show (Packet.control .endOfFile (j.last + 1)).seq = j.last + 1 ∧ v.ended
  exact ⟨Packet.seq_control _ (by omega), hended⟩

/-- From honest datagrams an upload comes no further than the client allows, and says only what is
true. -/
theorem Goes.keeps (hs : s.Keeps j v activity) (hqueue : ∀ x ∈ queue, x.Honest j v)
    (hg : Goes j s activity queue (.next (.serving s' activity') queue' sent))
    (hle : v.Le v') (hcurrent : s'.window.current ≤ v'.horizon) (hended : s'.Ended → v'.ended) :
    s'.Keeps j v' activity' ∧ (∀ p ∈ sent, p.Sendable j v' source) ∧ ∀ x ∈ queue', x ∈ queue := by
  obtain ⟨hfits', hdoing', hgrows⟩ := hg.fits hs.fits hs.doing
  have hclient : s'.client = v'.client := by rw [hgrows.client, hs.client, hle.client]
  have hnext := hle.next
  have hlower := hs.lower
  have hlast := j.last_lt
  have hreached := hs.fits.reached
  have hfirst := hs.fits.window.first
  have hord := hs.fits.window.ordered
  have hbounded := hs.fits.window.bounded
  have hsize := hs.fits.size
  -- what every step needs: where `lower` is, that the end is confirmed, and what is sent
  have hkeep : ∀ {queue' : List Arrival}, s'.window.lower ≤ v'.next →
      (activity' = .done → v'.finished) → (∀ p ∈ sent, p.Sendable j v' source) →
      (∀ x ∈ queue', x ∈ queue) → s'.Keeps j v' activity' ∧
        (∀ p ∈ sent, p.Sendable j v' source) ∧ ∀ x ∈ queue', x ∈ queue :=
    fun hlower' hdone hsent hsub =>
      ⟨⟨hfits', hdoing', hclient, hlower', hcurrent, hended, hdone⟩, hsent, hsub⟩
  have htail : ∀ {x : Arrival} {rest : List Arrival}, ∀ y ∈ rest, y ∈ x :: rest :=
    fun y hy => List.mem_cons_of_mem _ hy
  cases hg with
  | piece _ hopen hmore =>
      unfold Open at hopen
      change s.window.current + 1 ≤ v'.horizon at hcurrent
      refine hkeep (by exact Nat.le_trans hlower hnext) (by simp) ?_ (fun _ h => h)
      simpa using @sendable_piece j v' source s.window.current .data rfl (by omega) (by omega)
        (by omega) (by omega) (by simp)
  | announce _ hopen hend =>
      refine hkeep (by exact Nat.le_trans hlower hnext) (by simp) ?_ (fun _ h => h)
      simpa using @sendable_end j v' source (hended (Option.some_ne_none _))
  | closed _ hclosed =>
      exact hkeep (by omega) (by simp) (by simp) (fun _ h => h)
  | pass goal x _ t hsame hother =>
      exact hkeep (by exact Nat.le_trans hlower hnext) (by simp) (by simp) htail
  | acked goal x _ p hsource hp hflag hseq =>
      have htrue := (hqueue x List.mem_cons_self).honest p hp
      rw [Packet.Honest, hflag] at htrue
      exact hkeep (Nat.le_trans htrue hnext) (by simp) (by simp) htail
  | asked goal x _ p hsource hp hflag hseq =>
      have htrue := (hqueue x List.mem_cons_self).honest p hp
      rw [Packet.Honest, hflag] at htrue
      obtain ⟨hlo, hhi⟩ := hseq
      change s.window.current ≤ v'.horizon at hcurrent
      refine hkeep (by exact Nat.le_trans hlower hnext) (by simp) ?_ htail
      simpa using @sendable_piece j v' source p.seq .srejData rfl (by omega) (by omega) (by omega)
        (by omega) (by omega)
  | confirmed goal x _ p hsource hp hflag hseq =>
      have htrue := (hqueue x List.mem_cons_self).honest p hp
      rw [Packet.Honest, hflag] at htrue
      exact hkeep (by omega) (fun _ => hle.finished htrue.2) (by simp) htail
  | goOn goal hgoal => exact hkeep (by omega) (by simp) (by simp) (fun _ h => h)
  | rest goal hgoal hpatient =>
      exact hkeep (by exact Nat.le_trans hlower hnext) (by simp) (by simp) (fun _ h => h)
  | wake goal x queue =>
      exact hkeep (by exact Nat.le_trans hlower hnext) (by simp) (by simp) (fun _ h => h)
  | again goal _ hheld =>
      change s.window.current ≤ v'.horizon at hcurrent
      refine hkeep (by exact Nat.le_trans hlower hnext) (by simp) ?_ (fun _ h => h)
      simpa using @sendable_piece j v' source s.window.lower .timeoutData rfl (by omega)
        (by omega) (by omega) (by omega) (by omega)
  | announceAgain _ hall =>
      refine hkeep (by exact Nat.le_trans hlower hnext) (by simp) ?_ (fun _ h => h)
      simpa using @sendable_end j v' source (hended (Option.some_ne_none _))

end Serving

namespace Upload

variable {j : Job} {v v' : View} {u u' : Upload} {queue queue' : List Arrival}
  {sent : List Packet} {source : Address}

/-- A step of an upload: it never goes back, and in a view that is as far as it has come it keeps to
what is true. -/
theorem step_keeps (hu : u.Keeps j v) (hnext : 1 ≤ v.next) (hqueue : ∀ x ∈ queue, x.Honest j v)
    (hstep : Machine.step u queue = .next u' queue' sent) :
    u.current ≤ u'.current ∧ (u.Ended → u'.Ended) ∧
      ∀ v', v.Le v' → u'.current ≤ v'.horizon → (u'.Ended → v'.ended) →
        u'.Keeps j v' ∧ (∀ p ∈ sent, p.Sendable j v' source) ∧ ∀ x ∈ queue', x ∈ queue := by
  match u with
  | .opening config request client file =>
      obtain ⟨rfl, hclient, rfl⟩ := hu
      rw [step_opening, Move.next.injEq] at hstep
      obtain ⟨rfl, rfl, rfl⟩ := hstep
      refine ⟨Nat.le_refl _, False.elim, fun v' hle hcurrent hended => ⟨?_, ?_, fun _ h => h⟩⟩
      · have := hle.next
        exact ⟨Serving.fits_opened config j client, fun h => h rfl,
          hclient.trans hle.client.symm, Nat.le_trans hnext hle.next, hcurrent, hended, by simp⟩
      · intro p hp
        rw [List.mem_singleton] at hp
        subst hp
        exact ⟨Nat.zero_le _, trivial⟩
  | .refused _ _ => exact hu.elim
  | .serving s activity =>
      have hgoes := Serving.step_spec hu.fits hu.doing queue
      change s.step queue activity = _ at hstep
      rw [hstep] at hgoes
      obtain ⟨s', activity', rfl⟩ : ∃ s' activity', u' = .serving s' activity' := by
        cases hgoes <;> exact ⟨_, _, rfl⟩
      obtain ⟨-, -, hgrows⟩ := hgoes.fits hu.fits hu.doing
      exact ⟨hgrows.current, hgrows.ended, fun v' hle hcurrent hended =>
        hgoes.keeps hu hqueue hle hcurrent hended⟩

/-- Everything that an upload sends fits a datagram. -/
theorem step_short (hu : u.Keeps j v) (hstep : Machine.step u queue = .next u' queue' sent) :
    ∀ p ∈ sent, p.payload.length ≤ Packet.maxPayload := by
  match u with
  | .opening config request client file =>
      obtain ⟨rfl, -, rfl⟩ := hu
      rw [step_opening, Move.next.injEq] at hstep
      obtain ⟨-, -, rfl⟩ := hstep
      intro p hp
      rw [List.mem_singleton] at hp
      rw [hp]
      exact Nat.zero_le _
  | .refused _ _ => exact hu.elim
  | .serving s activity =>
      have hgoes := Serving.step_spec hu.fits hu.doing queue
      change s.step queue activity = _ at hstep
      rw [hstep] at hgoes
      exact hgoes.short

/-- An upload ends well only when the client has confirmed the end. -/
theorem finished_of_stop (hu : u.Keeps j v) {result : Statistics}
    (hstep : Machine.step u queue = .stop (.ok result)) : v.finished := by
  match u with
  | .opening config request client file =>
      obtain ⟨rfl, -, rfl⟩ := hu
      rw [step_opening] at hstep
      cases hstep
  | .refused _ _ => exact hu.elim
  | .serving s activity =>
      have hgoes := Serving.step_spec hu.fits hu.doing queue
      change s.step queue activity = _ at hstep
      rw [hstep] at hgoes
      cases hgoes with
      | finish => exact hu.done rfl

end Upload

end SelectiveReject
