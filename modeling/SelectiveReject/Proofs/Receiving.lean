import SelectiveReject.Proofs.Buffer
import SelectiveReject.Proofs.Taking

/-!
# What a download does with the packets of its file

`Session.Takes` lists what becomes of a packet when it belongs to the job, and `Download.Goes` lists the
steps of a download that gets no others.  They are what `Session.Outcome` and `Download.Moves` come to
then: no packet is refused, and what was written is a beginning of the file (`Fits.not_refuses`,
`step_spec`).
-/

namespace SelectiveReject

/-- A packet of the file is the piece of its number, which is below the limit. -/
structure Packet.Sound (j : Job) (limit : Nat) (p : Packet) : Prop where
  limit : p.flag.isData = true → p.seq < limit
  payload : p.flag.isData = true → p.payload = j.piece p.seq

namespace Session

/-- The buffer fits the job, and everything that could be written has been. -/
structure Fits (j : Job) (limit : Nat) (s : Session) : Prop where
  buffer : s.buffer.Fits j limit
  written : ReorderBuffer.Written j s.buffer s.sink
  flushed : s.buffer.holding s.next = none
  total : s.buffer.bytesWritten = (j.upTo (s.buffer.next - 1)).length

/-- A session that has taken nothing yet. -/
def opened (j : Job) : Session where
  buffer := ⟨SlotRing.filled j.window j.window_pos none, 1, 0, 0, .start⟩

theorem fits_opened {j : Job} {limit : Nat} (h : 1 ≤ limit) : (opened j).Fits j limit where
  buffer := ReorderBuffer.fits_new _ h
  written := by
    constructor
    · rfl
    · exact (Consignment.upTo_zero j).symm
    · show Crc32.start = Crc32.start.update (j.upTo 0)
      rw [Consignment.upTo_zero]
      rfl
  flushed := ReorderBuffer.holding_new j.window_pos 1
  total := by
    show 0 = (j.upTo 0).length
    rw [Consignment.upTo_zero]
    rfl

variable {j : Job} {limit : Nat} {s : Session} {t : Statistics} {p : Packet}

theorem Fits.mono {limit' : Nat} (h : s.Fits j limit) (hle : limit ≤ limit') : s.Fits j limit' :=
  ⟨h.buffer.mono hle, h.written, h.flushed, h.total⟩

theorem Fits.one_le_next (h : s.Fits j limit) : 1 ≤ s.next := h.buffer.first

theorem Fits.next_le (h : s.Fits j limit) : s.next ≤ limit := h.buffer.reached

theorem Fits.bytes (h : s.Fits j limit) : s.sink.bytes = j.upTo (s.next - 1) := h.written.bytes

theorem Fits.digest (h : s.Fits j limit) :
    s.buffer.digest = Crc32.ofBytes (j.upTo (s.next - 1)) := by
  unfold ReorderBuffer.digest Crc32.ofBytes
  rw [h.written.crc]
  rfl

theorem Fits.tidy (h : s.Fits j limit) : s.Tidy :=
  ⟨h.buffer.first, h.written.unlimited, h.flushed, h.buffer.counted⟩

/-- What becomes of a packet of the peer. -/
inductive Takes (j : Job) (limit : Nat) (s : Session) (t : Statistics) (p : Packet) : Reply → Prop
  | old (hdata : p.flag.isData = true) (hseq : p.seq < s.next) :
      Takes j limit s t p ⟨s, acked { t with duplicatePackets := t.duplicatePackets + 1 },
        [.control .ack (s.next - 1)], false⟩
  | advance (s' : Session) (hdata : p.flag.isData = true) (hseq : p.seq = s.next)
      (hfits : s'.Fits j limit) (hlt : s.next < s'.next)
      (hmoved : s'.buffer.pending + s'.next = s.buffer.pending + 1 + s.next) :
      Takes j limit s t p ⟨s', acked t, [.control .ack (s'.next - 1)], false⟩
  | advanceAsking (s' : Session) (t' : Statistics) (hdata : p.flag.isData = true)
      (hseq : p.seq = s.next) (hfits : s'.Fits j limit) (hlt : s.next < s'.next)
      (hmoved : s'.buffer.pending + s'.next = s.buffer.pending + 1 + s.next)
      (hmore : s'.buffer.pending ≠ 0) :
      Takes j limit s t p
        ⟨s', t', [.control .ack (s'.next - 1), .control .srej s'.next], false⟩
  | later (s' : Session) (t' : Statistics) (hdata : p.flag.isData = true) (hseq : s.next < p.seq)
      (hfits : s'.Fits j limit) (hnext : s'.next = s.next) :
      Takes j limit s t p ⟨s', t', [.control .srej s.next], false⟩
  | finish (hend : p.flag = .endOfFile) (hseq : p.seq = s.next) :
      Takes j limit s t p ⟨s, { t with packetsSent := t.packetsSent + 1 },
        [.control .eofAck s.next], true⟩
  | early (t' : Statistics) (hend : p.flag = .endOfFile) (hseq : s.next < p.seq) :
      Takes j limit s t p ⟨s, t', [.control .srej s.next], false⟩
  | pass (hdata : p.flag.isData = false) (hend : p.flag = .endOfFile → p.seq < s.next) :
      Takes j limit s t p ⟨s, t, [], false⟩

theorem Fits.hold (h : s.Fits j limit) {seq : Nat} (hlo : s.next < seq)
    (hhi : seq < s.next + s.buffer.size) (hfree : s.buffer.holding seq = none) (hlimit : seq < limit) :
    (s.hold (j.piece seq) seq).Fits j limit where
  buffer := h.buffer.store (Nat.le_of_lt hlo) hhi hlimit hfree
  written := ⟨h.written.unlimited, h.written.bytes, h.written.crc⟩
  flushed := (h.tidy.hold (j.piece seq) hlo hhi hfree).flushed
  total := h.total

theorem Fits.advanced (h : s.Fits j limit) (hlimit : s.next < limit) {run : List Bytes}
    {s' : Session} (ha : s.Advanced (j.piece s.next) run s') : s'.Fits j limit := by
  have hnear : s.next < s.buffer.next + s.buffer.size :=
    Nat.lt_add_of_pos_right s.buffer.size_pos
  have hstored := h.buffer.store (Nat.le_refl s.next) hnear hlimit h.flushed
  have hwritten : ReorderBuffer.Written j (s.buffer.store (j.piece s.next) s.next) s.sink :=
    ⟨h.written.unlimited, h.written.bytes, h.written.crc⟩
  have hlength := congrArg List.length (hstored.upTo_wrote ha.wrote)
  rw [List.length_append] at hlength
  exact {
    buffer := hstored.wrote ha.wrote
    written := hwritten.wrote hstored ha.wrote ha.unlimited ha.bytes
    flushed := ha.wrote.stopped
    total := by
      rw [ha.total, h.total]
      exact hlength }

/-- What becomes of a packet that belongs to the job. -/
theorem Outcome.takes {r : Reply} (h : s.Fits j limit) (hp : p.Sound j limit)
    (ho : s.Outcome t p r) : Takes j limit s t p r := by
  have hadvanced : ∀ {run s'}, p.flag.isData = true → p.seq = s.next →
      s.Advanced p.payload run s' → s'.Fits j limit ∧ s.next < s'.next ∧
        s'.buffer.pending + s'.next = s.buffer.pending + 1 + s.next := by
    intro run s' hdata hseq hmoved
    have hlt := hmoved.next_lt
    have hnext : s'.buffer.next = s.next + run.length := hmoved.wrote.next
    have hpending : s'.buffer.pending + run.length = s.buffer.pending + 1 := hmoved.wrote.pending
    have hlimit := hp.limit hdata
    rw [hp.payload hdata, hseq] at hmoved
    refine ⟨h.advanced (by omega) hmoved, hlt, ?_⟩
    show s'.buffer.pending + s'.buffer.next = _
    omega
  cases ho with
  | old hdata hseq => exact .old hdata hseq
  | advance run s' hdata hseq hmoved =>
      obtain ⟨hfits, hlt, hcount⟩ := hadvanced hdata hseq hmoved
      exact .advance s' hdata hseq hfits hlt hcount
  | advanceAsking run s' hdata hseq hmoved hmore =>
      obtain ⟨hfits, hlt, hcount⟩ := hadvanced hdata hseq hmoved
      exact .advanceAsking s' _ hdata hseq hfits hlt hcount hmore
  | hold hdata hlo hhi hfree =>
      rw [hp.payload hdata]
      exact .later _ _ hdata hlo (h.hold hlo hhi hfree (hp.limit hdata)) rfl
  | held hdata hlo hheld => exact .later s _ hdata hlo h rfl
  | far hdata hfar =>
      have hpos := s.buffer.size_pos
      exact .later s _ hdata (by omega) h rfl
  | finish hend hseq => exact .finish hend hseq
  | early hend hseq => exact .early _ hend hseq
  | pass hdata hend => exact .pass hdata hend

/-- No packet that belongs to the job is refused. -/
theorem Fits.not_refuses (h : s.Fits j limit) (hword : limit + j.window < limit32)
    (hp : p.Sound j limit) : ¬ s.Refuses p := by
  rintro (hnot | ⟨run, s', hdata, hseq, hmoved, hnot⟩)
  · exact hnot (h.buffer.roomy hword)
  · have hlimit := hp.limit hdata
    rw [hp.payload hdata, hseq] at hmoved
    exact hnot ((h.advanced (by omega) hmoved).buffer.roomy hword)

/-- The session that a packet leaves fits the job, and `next` never moves back. -/
theorem Takes.fits {r : Reply} (h : s.Fits j limit) (ht : Takes j limit s t p r) :
    r.session.Fits j limit ∧ s.next ≤ r.session.next := by
  cases ht with
  | old => exact ⟨h, Nat.le_refl _⟩
  | advance s' _ _ hfits hlt => exact ⟨hfits, Nat.le_of_lt hlt⟩
  | advanceAsking s' _ _ _ hfits hlt => exact ⟨hfits, Nat.le_of_lt hlt⟩
  | later s' _ _ _ hfits hnext => exact ⟨hfits, Nat.le_of_eq hnext.symm⟩
  | finish => exact ⟨h, Nat.le_refl _⟩
  | early => exact ⟨h, Nat.le_refl _⟩
  | pass => exact ⟨h, Nat.le_refl _⟩

end Session

namespace Download

/-- What has been written. -/
def written (d : Download) : Bytes := (d.session.map fun s => s.sink.bytes).getD []

/-- The end of the file has been confirmed. -/
def Finished (d : Download) : Prop := ∃ s, d.stage = .complete s

instance (d : Download) : Decidable d.Finished :=
  match h : d.stage with
  | .complete s => .isTrue ⟨s, h⟩
  | .asking | .asked | .handshake | .answered _ | .receiving _ | .silent _ =>
      .isFalse fun ⟨s, hs⟩ => by
        rw [h] at hs
        cases hs

/-- The steps of a download. -/
inductive Goes (j : Job) (limit : Nat) (d : Download) : List Arrival → Move Download → Prop
  | ask (queue : List Arrival) (hstage : d.stage = .asking) :
      Goes j limit d queue (.next
        { d with
          peer := d.server
          statistics := { d.statistics with packetsSent := d.statistics.packetsSent + 1 }
          stage := .asked } queue [j.request.toPacket])
  | beginWait (queue : List Arrival) (hstage : d.stage = .asked) (hpatient : d.retry.Patient) :
      Goes j limit d queue (.next
        { d with retry := { d.retry with count := d.retry.count + 1 }, stage := .handshake }
        queue [])
  | giveUp (queue : List Arrival) (e : Stop) (hstage : d.stage = .asked)
      (hpatient : ¬ d.retry.Patient) : Goes j limit d queue (.stop (.error e))
  | wait (hstage : d.stage = .handshake ∨ ∃ s, d.stage = .receiving s) : Goes j limit d [] .wait
  | ignoreAnswer (x : Arrival) (queue : List Arrival) (t : Statistics)
      (hstage : d.stage = .handshake) (hother : ∀ p, x.packet = .ok p → p.flag ≠ .fnameOk) :
      Goes j limit d (x :: queue) (.next
        { d with retry := d.retry.reset, statistics := t, stage := .asked } queue [])
  | refused (x : Arrival) (queue : List Arrival) (e : Error) (p : Packet)
      (hstage : d.stage = .handshake) (hp : x.packet = .ok p) (hflag : p.flag = .fnameBad) :
      Goes j limit d (x :: queue) (.fail e)
  | granted (x : Arrival) (queue : List Arrival) (p : Packet) (hstage : d.stage = .handshake)
      (hp : x.packet = .ok p) (hflag : p.flag = .fnameOk) :
      Goes j limit d (x :: queue) (.next
        { d with retry := d.retry.reset, peer := x.source, stage := .answered none } queue [])
  | standIn (x : Arrival) (queue : List Arrival) (p : Packet) (hstage : d.stage = .handshake)
      (hp : x.packet = .ok p) (hflag : p.flag.isData = true ∨ p.flag = .endOfFile) :
      Goes j limit d (x :: queue) (.next
        { d with retry := d.retry.reset, peer := x.source, stage := .answered (some p) } queue [])
  | uncreatable (queue : List Arrival) (first : Option Packet) (e : Error)
      (hstage : d.stage = .answered first) (hfetch : d.fetch.creatable = false) :
      Goes j limit d queue (.fail e)
  | opened (queue : List Arrival) (hstage : d.stage = .answered none) :
      Goes j limit d queue (.next { d with stage := .receiving (.opened j) } queue [])
  | openedWith (queue : List Arrival) (p : Packet) (r : Reply)
      (hstage : d.stage = .answered (some p))
      (htakes : (Session.opened j).Takes j limit d.statistics p r) :
      Goes j limit d queue (.next (d.after r) queue r.packets)
  | ignore (x : Arrival) (queue : List Arrival) (t : Statistics) (s : Session)
      (hstage : d.stage = .receiving s)
      (hother : x.source ≠ d.peer ∨ ∀ p, x.packet ≠ .ok p) :
      Goes j limit d (x :: queue) (.next { d with statistics := t } queue [])
  | take (x : Arrival) (queue : List Arrival) (p : Packet) (s : Session) (r : Reply)
      (hstage : d.stage = .receiving s) (hsource : x.source = d.peer) (hp : x.packet = .ok p)
      (htakes : s.Takes j limit d.statistics p r) :
      Goes j limit d (x :: queue) (.next (d.after r) queue r.packets)
  | silent (queue : List Arrival) (s : Session) (e : Error) (hstage : d.stage = .silent s) :
      Goes j limit d queue (.fail e)
  | finish (queue : List Arrival) (s : Session) (hstage : d.stage = .complete s) :
      Goes j limit d queue (.stop (.ok { d.statistics with
        payloadBytes := s.buffer.bytesWritten
        digest := s.buffer.digest }))

/-- The download is for the job, and what it has taken fits it. -/
structure Fits (j : Job) (limit : Nat) (d : Download) : Prop where
  request : d.request = j.request
  session : ∀ s, d.session = some s → s.Fits j limit
  complete : ∀ s, d.stage = .complete s → s.next = j.last + 1

variable {j : Job} {limit : Nat} {d : Download}

theorem finished_after {r : Reply} : (d.after r).Finished ↔ r.complete = true := by
  unfold Finished after
  cases r.complete <;> simp

/-- What a step comes to when every packet belongs to the job. -/
theorem Moves.goes {queue : List Arrival} {move : Move Download} (hfits : d.Fits j limit)
    (hlimit : 1 ≤ limit) (hword : limit + j.window < limit32)
    (hfirst : ∀ p, d.stage = .answered (some p) → p.Sound j limit)
    (hqueue : ∀ x ∈ queue, ∀ p, x.packet = .ok p → p.Sound j limit) (hm : Moves d queue move) :
    Goes j limit d queue move := by
  have hwindow := j.window_range
  have hmade : ReorderBuffer.make d.request.parameters.window.toNat =
      .ok (Session.opened j).buffer := by
    rw [hfits.request]
    exact ReorderBuffer.make_eq hwindow.1 hwindow.2
  have hbuffer : ∀ {buffer}, ReorderBuffer.make d.request.parameters.window.toNat = .ok buffer →
      ({ buffer := buffer } : Session) = .opened j := by
    intro buffer hmake
    rw [hmade] at hmake
    cases hmake
    rfl
  have hsession : ∀ s, d.stage = .receiving s → s.Fits j limit := by
    intro s hstage
    apply hfits.session
    rw [session, hstage]
  have hopened := Session.fits_opened (j := j) hlimit
  cases hm with
  | ask queue hstage =>
      have hask := @Goes.ask j limit d queue hstage
      rw [← hfits.request] at hask
      exact hask
  | beginWait queue hstage hpatient => exact .beginWait queue hstage hpatient
  | giveUp queue e hstage hpatient => exact .giveUp queue e hstage hpatient
  | wait hstage => exact .wait hstage
  | ignoreAnswer x queue t hstage hother =>
      exact .ignoreAnswer x queue t hstage fun p hp => (hother p hp).1
  | refused x queue p hstage hp hflag => exact .refused x queue _ p hstage hp hflag
  | granted x queue p hstage hp hflag => exact .granted x queue p hstage hp hflag
  | standIn x queue p hstage hp hflag => exact .standIn x queue p hstage hp hflag
  | uncreatable queue first hstage hfetch => exact .uncreatable queue first _ hstage hfetch
  | unbuffered queue first e hstage hmake =>
      rw [hmade] at hmake
      cases hmake
  | opened queue buffer hstage hmake =>
      rw [hbuffer hmake]
      exact .opened queue hstage
  | openedWith queue buffer p r hstage hmake htakes =>
      rw [hbuffer hmake] at htakes
      exact .openedWith queue p r hstage (htakes.takes hopened (hfirst p hstage))
  | openedBroken queue buffer p a hstage hmake hrefuses =>
      rw [hbuffer hmake] at hrefuses
      exact absurd hrefuses (hopened.not_refuses hword (hfirst p hstage))
  | ignore x queue t s hstage hother => exact .ignore x queue t s hstage hother
  | take x queue p s r hstage hsource hp htakes =>
      exact .take x queue p s r hstage hsource hp
        (htakes.takes (hsession s hstage) (hqueue x List.mem_cons_self p hp))
  | broken x queue p s a hstage hsource hp hrefuses =>
      exact absurd hrefuses
        ((hsession s hstage).not_refuses hword (hqueue x List.mem_cons_self p hp))
  | silent queue s hstage => exact .silent queue s _ hstage
  | finish queue s hstage => exact .finish queue s hstage

/-- A download of the job does nothing else. -/
theorem step_spec (hfits : d.Fits j limit) (hlimit : 1 ≤ limit)
    (hword : limit + j.window < limit32)
    (hfirst : ∀ p, d.stage = .answered (some p) → p.Sound j limit) (queue : List Arrival)
    (hqueue : ∀ x ∈ queue, ∀ p, x.packet = .ok p → p.Sound j limit) :
    Goes j limit d queue (Machine.step d queue) :=
  (step_moves (fun s hs => (hfits.session s hs).tidy) queue).goes hfits hlimit hword hfirst hqueue

/-- The download has created the file and has not been given up. -/
def Alive (d : Download) : Prop := (∃ s, d.stage = .receiving s) ∨ d.Finished

theorem alive_after (d : Download) (r : Reply) : (d.after r).Alive := by
  unfold Alive Finished after
  cases r.complete <;> simp

/-- A download with a file ends only when it is complete, and then it ends well. -/
theorem Goes.ends {queue : List Arrival} {result : Except Stop Statistics} (h : d.Alive)
    (hg : Goes j limit d queue (.stop result)) : ∃ s, d.stage = .complete s ∧
      result = .ok { d.statistics with
        payloadBytes := s.buffer.bytesWritten
        digest := s.buffer.digest } := by
  have hnot : ∀ {stage : Stage}, d.stage = stage →
      (∀ s, stage ≠ .receiving s) → (∀ s, stage ≠ .complete s) → False := by
    intro stage hstage hreceiving hcomplete
    rcases h with ⟨s, hs⟩ | ⟨s, hs⟩
    · exact hreceiving s (hstage.symm.trans hs)
    · exact hcomplete s (hstage.symm.trans hs)
  cases hg with
  | giveUp _ _ hstage => exact (hnot hstage (by simp) (by simp)).elim
  | refused _ _ _ _ hstage => exact (hnot hstage (by simp) (by simp)).elim
  | uncreatable _ _ _ hstage => exact (hnot hstage (by simp) (by simp)).elim
  | silent _ s _ hstage => exact (hnot hstage (by simp) (by simp)).elim
  | finish _ s hstage => exact ⟨s, hstage, rfl⟩

/-- A download that is complete takes no more packets. -/
theorem Goes.receives {d' : Download} {queue queue' : List Arrival} {sent : List Packet}
    (h : d.Alive) (hg : Goes j limit d queue (.next d' queue' sent)) :
    ∃ s, d.stage = .receiving s := by
  rcases h with h | ⟨s, hs⟩
  · exact h
  · exfalso
    have hother : ∀ {stage : Stage}, d.stage = stage → stage = .complete s :=
      fun hstage => hstage.symm.trans hs
    cases hg with
    | ask _ h => cases hother h
    | beginWait _ h _ => cases hother h
    | ignoreAnswer _ _ _ h _ => cases hother h
    | granted _ _ _ h _ _ => cases hother h
    | standIn _ _ _ h _ _ => cases hother h
    | opened _ h => cases hother h
    | openedWith _ _ _ h _ => cases hother h
    | ignore _ _ _ _ h _ => cases hother h
    | take _ _ _ _ _ h _ _ _ => cases hother h

/-- A download that takes data keeps its peer. -/
theorem Goes.peer {d' : Download} {queue queue' : List Arrival} {sent : List Packet}
    (h : d.Alive) (hg : Goes j limit d queue (.next d' queue' sent)) : d'.peer = d.peer := by
  obtain ⟨s, hs⟩ := hg.receives h
  have hother : ∀ {stage : Stage}, d.stage = stage → stage = .receiving s :=
    fun hstage => hstage.symm.trans hs
  cases hg with
  | ask _ h => cases hother h
  | beginWait _ h _ => cases hother h
  | ignoreAnswer _ _ _ h _ => cases hother h
  | granted _ _ _ h _ _ => cases hother h
  | standIn _ _ _ h _ _ => cases hother h
  | opened _ h => cases hother h
  | openedWith _ _ _ h _ => cases hother h
  | ignore _ _ _ _ _ _ => rfl
  | take _ _ _ _ _ _ _ _ _ => rfl

end Download

end SelectiveReject
