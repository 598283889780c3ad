import SelectiveReject.Proofs.Holding
import SelectiveReject.Download

/-!
# What a download does with any packet

Nothing is assumed of the packets here, neither of their numbers nor of their bytes.  `Session.Outcome`
lists what becomes of a packet of the peer, with the answer to it, and `Download.Moves` lists the steps of
a download.  Both are complete (`take_cases`, `step_moves`):

```
data,  seq < next            ack (next - 1)
data,  seq = next            ack (next' - 1), and srej next' if more is held
data,  next < seq            srej next; held if it is near enough and not held yet
end,   seq = next            eofAck next, complete
end,   seq > next            srej next
```

A packet is refused only when a counter leaves its word.
-/

namespace SelectiveReject

theorem Packet.seq_control (flag : Flag) {number : Nat} (h : number < limit32) :
    (Packet.control flag number).seq = number := by
  unfold Packet.control Packet.seq
  rw [UInt32.toNat_ofNat']
  exact Nat.mod_eq_of_lt h

namespace Retry

/-- There is patience for one more wait, and the count still fits its word. -/
def Patient (r : Retry) : Prop := r.count < r.maxTries ∧ r.count + 1 < limit32

instance (r : Retry) : Decidable r.Patient := inferInstanceAs (Decidable (_ ∧ _))

/-- What a machine ends with when its patience is over: it gives the peer up, unless the count leaves its
word before. -/
def refusal (r : Retry) : Stop :=
  if r.count + 1 < limit32 then .error (.peerSilent r.maxTries) else .abort .overflow

/-- A count that fits its word says whether there is patience for one more wait. -/
theorem attempt_of_lt {r : Retry} (hword : r.count + 1 < limit32) :
    r.attempt = .ok (decide (r.count + 1 ≤ r.maxTries), { r with count := r.count + 1 }) := by
  simp only [attempt, Word.plus_of_lt hword, Except.map]

theorem attempt_eq {r : Retry} (h : r.Patient) :
    r.attempt = .ok (true, { r with count := r.count + 1 }) := by
  rw [attempt_of_lt h.2, decide_eq_true (Nat.succ_le_of_lt h.1)]

theorem attempt_of_not_patient {r : Retry} (h : ¬ r.Patient) :
    (∃ a, r.attempt = .error a) ∨ ∃ r', r.attempt = .ok (false, r') := by
  unfold Patient at h
  by_cases hword : r.count + 1 < limit32
  · right
    rw [attempt_of_lt hword, decide_eq_false (by omega)]
    exact ⟨_, rfl⟩
  · left
    refine ⟨.overflow, ?_⟩
    rw [attempt, Word.plus, if_neg hword]
    rfl

/-- At most `limit` waits in a row have begun, and no more than these are allowed. -/
structure Within (limit : Nat) (r : Retry) : Prop where
  maxTries : r.maxTries = limit
  count : r.count ≤ limit

section
variable {limit : Nat} {r : Retry}

theorem Within.reset (h : r.Within limit) : r.reset.Within limit := ⟨h.maxTries, Nat.zero_le _⟩

theorem Within.rest (h : r.Within limit) (hpatient : r.Patient) :
    Within limit { r with count := r.count + 1 } := ⟨h.maxTries, h.maxTries ▸ hpatient.1⟩

theorem Within.refusal (h : r.Within limit) (hlimit : limit + 1 < limit32) :
    r.refusal = .error (.peerSilent limit) := by
  have hcount := h.count
  have hword : r.count + 1 < limit32 := by omega
  rw [Retry.refusal, if_pos hword, h.maxTries]

/-- The last count beyond the limit still fits its word. -/
theorem Within.giveUp (h : r.Within limit) (hlimit : limit + 1 < limit32) (hpatient : ¬ r.Patient) :
    r.attempt = .ok (false, { r with count := r.count + 1 }) := by
  have hcount := h.count
  have hmax := h.maxTries
  have hword : r.count + 1 < limit32 := by omega
  have hover : ¬ r.count + 1 ≤ r.maxTries := fun hle => hpatient ⟨hle, hword⟩
  rw [attempt_of_lt hword, decide_eq_false hover]

end

end Retry

namespace Session

def next (s : Session) : Nat := s.buffer.next

/-- Everything that could be written has been, and the counters say what is held. -/
structure Tidy (s : Session) : Prop where
  first : 1 ≤ s.next
  unlimited : s.sink.room = none
  flushed : s.buffer.holding s.next = none
  counted : s.buffer.pending = s.buffer.held

theorem tidy_new {size : Nat} (hpos : 0 < size) :
    Tidy { buffer := ⟨SlotRing.filled size hpos none, 1, 0, 0, .start⟩ } where
  first := Nat.le_refl 1
  unlimited := rfl
  flushed := ReorderBuffer.holding_new hpos 1
  counted := (ReorderBuffer.held_new size hpos).symm

/-- One more acknowledgement is sent. -/
def acked (t : Statistics) : Statistics :=
  { t with acksSent := t.acksSent + 1, packetsSent := t.packetsSent + 1 }

/-- One more packet is asked for. -/
def asked (t : Statistics) : Statistics :=
  { t with srejsSent := t.srejsSent + 1, packetsSent := t.packetsSent + 1 }

/-- The session with one more packet held. -/
def hold (s : Session) (payload : Bytes) (seq : Nat) : Session :=
  { s with buffer := s.buffer.store payload seq }

/-- The session has taken the packet `next` and written the run that starts with it. -/
structure Advanced (s : Session) (payload : Bytes) (run : List Bytes) (s' : Session) : Prop where
  wrote : (s.buffer.store payload s.next).Wrote run s'.buffer
  unlimited : s'.sink.room = none
  bytes : s'.sink.bytes = s.sink.bytes ++ run.flatten
  total : s'.buffer.bytesWritten = s.buffer.bytesWritten + run.flatten.length

variable {s s' : Session} {t : Statistics} {p : Packet} {payload : Bytes} {run : List Bytes}

/-- What becomes of a packet of the peer. -/
inductive Outcome (s : Session) (t : Statistics) (p : Packet) : Reply → Prop
  | old (hdata : p.flag.isData = true) (hseq : p.seq < s.next) :
      Outcome s t p ⟨s, acked { t with duplicatePackets := t.duplicatePackets + 1 },
        [.control .ack (s.next - 1)], false⟩
  | advance (run : List Bytes) (s' : Session) (hdata : p.flag.isData = true) (hseq : p.seq = s.next)
      (hmoved : s.Advanced p.payload run s') :
      Outcome s t p ⟨s', acked t, [.control .ack (s'.next - 1)], false⟩
  | advanceAsking (run : List Bytes) (s' : Session) (hdata : p.flag.isData = true)
      (hseq : p.seq = s.next) (hmoved : s.Advanced p.payload run s') (hmore : s'.buffer.pending ≠ 0) :
      Outcome s t p ⟨s', asked (acked t),
        [.control .ack (s'.next - 1), .control .srej s'.next], false⟩
  | hold (hdata : p.flag.isData = true) (hlo : s.next < p.seq)
      (hhi : p.seq < s.next + s.buffer.size) (hfree : s.buffer.holding p.seq = none) :
      Outcome s t p ⟨s.hold p.payload p.seq, asked t, [.control .srej s.next], false⟩
  | held (hdata : p.flag.isData = true) (hlo : s.next < p.seq)
      (hheld : (s.buffer.holding p.seq).isSome = true) :
      Outcome s t p ⟨s, asked { t with duplicatePackets := t.duplicatePackets + 1 },
        [.control .srej s.next], false⟩
  | far (hdata : p.flag.isData = true) (hfar : s.next + s.buffer.size ≤ p.seq) :
      Outcome s t p ⟨s, asked t, [.control .srej s.next], false⟩
  | finish (hend : p.flag = .endOfFile) (hseq : p.seq = s.next) :
      Outcome s t p ⟨s, { t with packetsSent := t.packetsSent + 1 },
        [.control .eofAck s.next], true⟩
  | early (hend : p.flag = .endOfFile) (hseq : s.next < p.seq) :
      Outcome s t p ⟨s, asked t, [.control .srej s.next], false⟩
  | pass (hdata : p.flag.isData = false) (hend : p.flag = .endOfFile → p.seq < s.next) :
      Outcome s t p ⟨s, t, [], false⟩

theorem Tidy.slot (h : s.Tidy) : s.buffer.slots.get s.next = none :=
  s.buffer.holding_next.symm.trans h.flushed

/-- Behind what is held the packet `next` is still missing. -/
theorem Tidy.hold (h : s.Tidy) (payload : Bytes) {seq : Nat} (hlo : s.next < seq)
    (hhi : seq < s.next + s.buffer.size) (hfree : s.buffer.holding seq = none) : (s.hold payload seq).Tidy where
  first := h.first
  unlimited := h.unlimited
  flushed := by
    have hlo' : s.buffer.next ≤ seq := Nat.le_of_lt hlo
    show (s.buffer.store payload seq).holding s.next = none
    rw [ReorderBuffer.holding_store hlo' hhi, if_neg (Nat.ne_of_lt hlo)]
    exact h.flushed
  counted := by
    have hlo' : s.buffer.next ≤ seq := Nat.le_of_lt hlo
    rw [ReorderBuffer.holding_of_range hlo' hhi] at hfree
    show s.buffer.pending + 1 = (s.buffer.store payload seq).held
    rw [ReorderBuffer.held_store hfree, h.counted]

theorem Tidy.advanced (h : s.Tidy) (ha : s.Advanced payload run s') : s'.Tidy where
  first := by
    have hnext : s'.buffer.next = s.next + run.length := ha.wrote.next
    have hfirst := h.first
    show 1 ≤ s'.buffer.next
    omega
  unlimited := ha.unlimited
  flushed := ha.wrote.stopped
  counted := by
    have hpending : s'.buffer.pending + run.length = s.buffer.pending + 1 := ha.wrote.pending
    have hheld := ha.wrote.held
    rw [ReorderBuffer.held_store h.slot] at hheld
    have hcounted := h.counted
    omega

/-- The packet that was taken is the first of its run. -/
theorem Advanced.next_lt (ha : s.Advanced payload run s') : s.next < s'.next := by
  have hnext : s'.buffer.next = s.next + run.length := ha.wrote.next
  cases hrun : run.length with
  | succ n =>
      show s.next < s'.buffer.next
      omega
  | zero =>
      exfalso
      have hstopped := ha.wrote.stopped
      have hsame : s'.buffer.next = s.next := by omega
      have hpos := s.buffer.size_pos
      rw [ha.wrote.rest _ (Nat.le_refl _), hsame,
        ReorderBuffer.holding_store (Nat.le_refl s.next) (by show s.next < s.next + _; omega),
        if_pos rfl] at hstopped
      cases hstopped

/-- It is always `next` that is asked for. -/
theorem askAgain_cases (h : s.Tidy) (t : Statistics) (sent : List Packet) :
    (∃ a, s.askAgain t sent = .error (.abort a) ∧ ¬ s.buffer.Roomy) ∨
      s.askAgain t sent = .ok ⟨s, asked t, sent ++ [.control .srej s.next], false⟩ := by
  unfold askAgain
  rcases ReorderBuffer.lowestMissing_cases h.slot with
    ⟨a, hmissing, hword⟩ | ⟨missing, hmissing, hnext, -⟩
  · left
    rw [hmissing]
    exact ⟨a, rfl, fun hroomy => hword hroomy.word⟩
  · right
    have hget : missing.getD s.buffer.next = s.next := by
      rcases hnext with rfl | rfl <;> rfl
    simp only [hmissing, hget]
    rfl

theorem acknowledge_eq (h : 1 ≤ s.next) (t : Statistics) :
    s.acknowledge t = .ok (acked t, .control .ack (s.next - 1)) := by
  have hfirst : 1 ≤ s.buffer.next := h
  simp only [acknowledge, ReorderBuffer.lastCommitted, Word.minus_of_le hfirst]
  rfl

/-- A packet is refused only when a counter leaves its word. -/
def Refuses (s : Session) (p : Packet) : Prop :=
  ¬ s.buffer.Roomy ∨ ∃ run s', p.flag.isData = true ∧ p.seq = s.next ∧
    s.Advanced p.payload run s' ∧ ¬ s'.buffer.Roomy

/-- Holding one more packet leaves as much room. -/
theorem roomy_store (h : s.buffer.Roomy) {seq : Nat} (hfree : s.buffer.slots.get seq = none) :
    (s.buffer.store payload seq).Roomy where
  counted := by
    rw [ReorderBuffer.held_store hfree, ReorderBuffer.pending_store, h.counted]
  word := by
    rw [ReorderBuffer.size_store, ReorderBuffer.next_store]
    exact h.word

theorem takeNext_cases (h : s.Tidy) (t : Statistics) (hdata : p.flag.isData = true)
    (hseq : p.seq = s.next) :
    (∃ a, s.takeNext t p.payload p.seq = .error (.abort a) ∧ s.Refuses p) ∨
      ∃ r, s.takeNext t p.payload p.seq = .ok r ∧ Outcome s t p r := by
  have hpos := s.buffer.size_pos
  have hnext : s.buffer.next = s.next := rfl
  unfold takeNext
  rcases ReorderBuffer.add_cases p.payload (Nat.le_of_eq hseq.symm) with
    ⟨a, b', hadd, hnot⟩ | hadd
  · left
    rw [hadd]
    exact ⟨a, rfl, Or.inl hnot⟩
  · rw [if_neg (by omega), hseq, h.flushed, if_neg (by simp)] at hadd
    rw [hseq, hadd]
    rcases ReorderBuffer.flush_cases (b := s.buffer.store p.payload s.next) h.unlimited with
      ⟨a, b', sink', hflush, hnot⟩ | ⟨run, b', sink', hflush, hwrote, hroom, hbytes, htotal⟩
    · left
      simp only [hflush]
      exact ⟨a, rfl, Or.inl fun hroomy => hnot (roomy_store hroomy h.slot)⟩
    · have hmoved : s.Advanced p.payload run ⟨b', sink'⟩ := ⟨hwrote, hroom, hbytes, htotal⟩
      have htidy := h.advanced hmoved
      have hrefuses : ¬ b'.Roomy → s.Refuses p := fun hnot =>
        Or.inr ⟨run, ⟨b', sink'⟩, hdata, hseq, hmoved, hnot⟩
      simp only [hflush, acknowledge_eq htidy.first]
      rcases ReorderBuffer.lowestMissing_cases htidy.slot with
        ⟨a, hmissing, hword⟩ | ⟨missing, hmissing, -, hnone⟩
      · left
        simp only [hmissing]
        exact ⟨a, rfl, hrefuses fun hroomy => hword hroomy.word⟩
      · simp only [hmissing]
        cases missing with
        | none => exact Or.inr ⟨_, rfl, .advance run _ hdata hseq hmoved⟩
        | some gap =>
            rcases askAgain_cases htidy (acked t) [.control .ack (next ⟨b', sink'⟩ - 1)] with
              ⟨a, hask, hnot⟩ | hask
            · exact Or.inl ⟨a, hask, hrefuses hnot⟩
            · refine Or.inr ⟨_, hask, .advanceAsking run _ hdata hseq hmoved fun h0 => ?_⟩
              cases hnone h0

theorem takeLater_cases (h : s.Tidy) (t : Statistics) (hdata : p.flag.isData = true)
    (hseq : s.next < p.seq) :
    (∃ a, s.takeLater t p.payload p.seq = .error (.abort a) ∧ s.Refuses p) ∨
      ∃ r, s.takeLater t p.payload p.seq = .ok r ∧ Outcome s t p r := by
  have hlo : s.buffer.next ≤ p.seq := Nat.le_of_lt hseq
  unfold takeLater
  rcases ReorderBuffer.add_cases p.payload hlo with ⟨a, b', hadd, hnot⟩ | hadd
  · left
    rw [hadd]
    exact ⟨a, rfl, Or.inl hnot⟩
  · rw [hadd]
    by_cases hfar : s.buffer.next + s.buffer.size ≤ p.seq
    · rw [if_pos hfar]
      rcases askAgain_cases h t [] with ⟨a, hask, hnot⟩ | hask
      · exact Or.inl ⟨a, hask, Or.inl hnot⟩
      · exact Or.inr ⟨_, hask, .far hdata hfar⟩
    · rw [if_neg hfar]
      by_cases hheld : (s.buffer.holding p.seq).isSome = true
      · rw [if_pos hheld]
        rcases askAgain_cases h { t with duplicatePackets := t.duplicatePackets + 1 } [] with
          ⟨a, hask, hnot⟩ | hask
        · exact Or.inl ⟨a, hask, Or.inl hnot⟩
        · exact Or.inr ⟨_, hask, .held hdata hseq hheld⟩
      · have hfree : s.buffer.holding p.seq = none := by simpa using hheld
        have hhi : p.seq < s.next + s.buffer.size := by
          have hnext : s.buffer.next = s.next := rfl
          omega
        rw [if_neg hheld]
        rcases askAgain_cases (h.hold p.payload hseq hhi hfree) t [] with
          ⟨a, hask, hnot⟩ | hask
        · rw [ReorderBuffer.holding_of_range hlo hhi] at hfree
          exact Or.inl ⟨a, hask, Or.inl fun hroomy => hnot (roomy_store hroomy hfree)⟩
        · exact Or.inr ⟨_, hask, .hold hdata hseq hhi hfree⟩

/-- Every packet is taken or refused. -/
theorem take_cases (h : s.Tidy) (t : Statistics) (p : Packet) :
    (∃ a, s.take t p = .error (.abort a) ∧ s.Refuses p) ∨ ∃ r, s.take t p = .ok r ∧ Outcome s t p r := by
  unfold take
  cases hdata : p.flag.isData with
  | true =>
      rw [if_pos rfl, takeData, show s.buffer.next = s.next from rfl]
      by_cases hold : p.seq < s.next
      · rw [if_pos hold, acknowledge_eq h.first]
        exact Or.inr ⟨_, rfl, .old hdata hold⟩
      · rw [if_neg hold]
        by_cases hnow : p.seq = s.next
        · rw [if_pos hnow]
          exact takeNext_cases h t hdata hnow
        · rw [if_neg hnow]
          exact takeLater_cases h t hdata (by omega)
  | false =>
      rw [if_neg Bool.false_ne_true, show s.buffer.next = s.next from rfl]
      by_cases hfinish : p.flag = .endOfFile ∧ p.seq = s.next
      · rw [if_pos hfinish, hfinish.2]
        exact Or.inr ⟨_, rfl, .finish hfinish.1 hfinish.2⟩
      · rw [if_neg hfinish]
        by_cases hearly : p.flag = .endOfFile ∧ s.next < p.seq
        · rw [if_pos hearly]
          rcases askAgain_cases h t [] with ⟨a, hask, hnot⟩ | hask
          · exact Or.inl ⟨a, hask, Or.inl hnot⟩
          · exact Or.inr ⟨_, hask, .early hearly.1 hearly.2⟩
        · rw [if_neg hearly]
          refine Or.inr ⟨_, rfl, .pass hdata fun hend => ?_⟩
          have hne : p.seq ≠ s.next := fun hseq => hfinish ⟨hend, hseq⟩
          have hle : ¬ s.next < p.seq := fun hseq => hearly ⟨hend, hseq⟩
          omega

/-- A session stays tidy, and `next` never moves back. -/
theorem Outcome.tidy {r : Reply} (h : s.Tidy) (ho : Outcome s t p r) :
    r.session.Tidy ∧ s.next ≤ r.session.next := by
  cases ho with
  | old | held | far | finish | early | pass => exact ⟨h, Nat.le_refl _⟩
  | advance run s' _ _ hmoved => exact ⟨h.advanced hmoved, Nat.le_of_lt hmoved.next_lt⟩
  | advanceAsking run s' _ _ hmoved => exact ⟨h.advanced hmoved, Nat.le_of_lt hmoved.next_lt⟩
  | hold _ hlo hhi hfree => exact ⟨h.hold p.payload hlo hhi hfree, Nat.le_refl _⟩

end Session

namespace Download

/-- The session, once the file on this side has been created. -/
def session (d : Download) : Option Session :=
  match d.stage with
  | .receiving s | .silent s | .complete s => some s
  | _ => none

/-- The number of the packet to be written next; the first one before there is a buffer. -/
def next (d : Download) : Nat := (d.session.map Session.next).getD 1

/-- The download after a packet was taken. -/
def after (d : Download) (r : Reply) : Download :=
  { d with
    statistics := r.statistics
    stage := if r.complete then .complete r.session else .receiving r.session }

/-- The packet is no answer of a server, nor one that stands for it. -/
def Idle (p : Packet) : Prop :=
  p.flag ≠ .fnameOk ∧ p.flag ≠ .fnameBad ∧ p.flag.isData = false ∧ p.flag ≠ .endOfFile

/-- Statistics that differ at most in how many datagrams were damaged. -/
def Noticed (t t' : Statistics) : Prop :=
  ∃ count, t' = { t with corruptPackets := t.corruptPackets + count }

/-- The steps of a download. -/
inductive Moves (d : Download) : List Arrival → Move Download → Prop
  | ask (queue : List Arrival) (hstage : d.stage = .asking) :
      Moves d queue (.next
        { d with
          peer := d.server
          statistics := { d.statistics with packetsSent := d.statistics.packetsSent + 1 }
          stage := .asked } queue [d.request.toPacket])
  | beginWait (queue : List Arrival) (hstage : d.stage = .asked) (hpatient : d.retry.Patient) :
      Moves d queue (.next
        { d with retry := { d.retry with count := d.retry.count + 1 }, stage := .handshake }
        queue [])
  | giveUp (queue : List Arrival) (e : Stop) (hstage : d.stage = .asked)
      (hpatient : ¬ d.retry.Patient)
      (he : (∃ a, e = .abort a) ∨ ∃ tries, e = .error (.peerSilent tries)) :
      Moves d queue (.stop (.error e))
  | wait (hstage : d.stage = .handshake ∨ ∃ s, d.stage = .receiving s) : Moves d [] .wait
  | ignoreAnswer (x : Arrival) (queue : List Arrival) (t : Statistics)
      (hstage : d.stage = .handshake) (hother : ∀ p, x.packet = .ok p → Idle p)
      (hnoticed : Noticed d.statistics t) :
      Moves d (x :: queue) (.next
        { d with retry := d.retry.reset, statistics := t, stage := .asked } queue [])
  | refused (x : Arrival) (queue : List Arrival) (p : Packet) (hstage : d.stage = .handshake)
      (hp : x.packet = .ok p) (hflag : p.flag = .fnameBad) :
      Moves d (x :: queue) (.fail (.fileNotFound d.fetch.name))
  | granted (x : Arrival) (queue : List Arrival) (p : Packet) (hstage : d.stage = .handshake)
      (hp : x.packet = .ok p) (hflag : p.flag = .fnameOk) :
      Moves d (x :: queue) (.next
        { d with retry := d.retry.reset, peer := x.source, stage := .answered none } queue [])
  | standIn (x : Arrival) (queue : List Arrival) (p : Packet) (hstage : d.stage = .handshake)
      (hp : x.packet = .ok p) (hflag : p.flag.isData = true ∨ p.flag = .endOfFile) :
      Moves d (x :: queue) (.next
        { d with retry := d.retry.reset, peer := x.source, stage := .answered (some p) } queue [])
  | uncreatable (queue : List Arrival) (first : Option Packet) (hstage : d.stage = .answered first)
      (hfetch : d.fetch.creatable = false) : Moves d queue (.fail uncreatableError)
  | unbuffered (queue : List Arrival) (first : Option Packet) (e : Error)
      (hstage : d.stage = .answered first)
      (hmake : ReorderBuffer.make d.request.parameters.window.toNat = .error e) :
      Moves d queue (.fail e)
  | opened (queue : List Arrival) (buffer : ReorderBuffer) (hstage : d.stage = .answered none)
      (hmake : ReorderBuffer.make d.request.parameters.window.toNat = .ok buffer) :
      Moves d queue (.next { d with stage := .receiving { buffer := buffer } } queue [])
  | openedWith (queue : List Arrival) (buffer : ReorderBuffer) (p : Packet) (r : Reply)
      (hstage : d.stage = .answered (some p))
      (hmake : ReorderBuffer.make d.request.parameters.window.toNat = .ok buffer)
      (htakes : Session.Outcome { buffer := buffer } d.statistics p r) :
      Moves d queue (.next (d.after r) queue r.packets)
  | openedBroken (queue : List Arrival) (buffer : ReorderBuffer) (p : Packet) (a : Abort)
      (hstage : d.stage = .answered (some p))
      (hmake : ReorderBuffer.make d.request.parameters.window.toNat = .ok buffer)
      (hrefuses : Session.Refuses { buffer := buffer } p) : Moves d queue (.abort a)
  | ignore (x : Arrival) (queue : List Arrival) (t : Statistics) (s : Session)
      (hstage : d.stage = .receiving s)
      (hother : x.source ≠ d.peer ∨ ∀ p, x.packet ≠ .ok p) (hnoticed : Noticed d.statistics t) :
      Moves d (x :: queue) (.next { d with statistics := t } queue [])
  | take (x : Arrival) (queue : List Arrival) (p : Packet) (s : Session) (r : Reply)
      (hstage : d.stage = .receiving s) (hsource : x.source = d.peer) (hp : x.packet = .ok p)
      (htakes : s.Outcome d.statistics p r) :
      Moves d (x :: queue) (.next (d.after r) queue r.packets)
  | broken (x : Arrival) (queue : List Arrival) (p : Packet) (s : Session) (a : Abort)
      (hstage : d.stage = .receiving s) (hsource : x.source = d.peer) (hp : x.packet = .ok p)
      (hrefuses : s.Refuses p) : Moves d (x :: queue) (.abort a)
  | silent (queue : List Arrival) (s : Session) (hstage : d.stage = .silent s) :
      Moves d queue (.fail (.receiveTimeout (d.config.longTimeout / 1000)))
  | finish (queue : List Arrival) (s : Session) (hstage : d.stage = .complete s) :
      Moves d queue (.stop (.ok { d.statistics with
        payloadBytes := s.buffer.bytesWritten
        digest := s.buffer.digest }))

variable {d : Download}

theorem next_of_session {s : Session} (h : d.session = some s) : d.next = s.next := by
  unfold next
  rw [h]
  rfl

theorem next_of_no_session (h : d.session = none) : d.next = 1 := by
  unfold next
  rw [h]
  rfl

theorem session_after (d : Download) (r : Reply) : (d.after r).session = some r.session := by
  unfold session after
  cases r.complete <;> rfl

theorem next_after (d : Download) (r : Reply) : (d.after r).next = r.session.next :=
  next_of_session (session_after d r)

theorem read_eq (d : Download) (x : Arrival) :
    (∃ p, x.packet = .ok p ∧ d.read x = (d, some p)) ∨
    (∃ t, (∀ p, x.packet ≠ .ok p) ∧ d.read x = ({ d with statistics := t }, none) ∧
      Noticed d.statistics t) := by
  unfold read
  cases hx : x.packet with
  | ok p => exact Or.inl ⟨p, rfl, rfl⟩
  | error e =>
      right
      cases e with
      | corrupt => exact ⟨_, nofun, rfl, 1, rfl⟩
      | _ => exact ⟨d.statistics, nofun, rfl, 0, rfl⟩

theorem beginWait_moves (hstage : d.stage = .asked) (queue : List Arrival) :
    Moves d queue (d.beginWait queue) := by
  unfold beginWait
  by_cases hpatient : d.retry.Patient
  · rw [Retry.attempt_eq hpatient]
    exact .beginWait queue hstage hpatient
  · rcases Retry.attempt_of_not_patient hpatient with ⟨a, ha⟩ | ⟨r, hr⟩
    · rw [ha]
      exact .giveUp queue _ hstage hpatient (Or.inl ⟨a, rfl⟩)
    · rw [hr]
      exact .giveUp queue _ hstage hpatient (Or.inr ⟨r.maxTries, rfl⟩)

theorem answer_moves (hstage : d.stage = .handshake) (x : Arrival) (queue : List Arrival) :
    Moves d (x :: queue) (d.answer x queue) := by
  unfold answer
  rcases read_eq { d with retry := d.retry.reset } x with
    ⟨p, hp, hread⟩ | ⟨t, hp, hread, hnoticed⟩
  · simp only [hread]
    by_cases hbad : p.flag = .fnameBad
    · rw [if_pos hbad]
      exact .refused x queue p hstage hp hbad
    · rw [if_neg hbad]
      by_cases hok : p.flag = .fnameOk
      · rw [if_pos hok]
        exact .granted x queue p hstage hp hok
      · rw [if_neg hok]
        by_cases hfile : p.flag.isData = true ∨ p.flag = .endOfFile
        · rw [if_pos hfile]
          exact .standIn x queue p hstage hp hfile
        · rw [if_neg hfile]
          obtain ⟨hdata, hend⟩ := not_or.mp hfile
          refine .ignoreAnswer x queue d.statistics hstage (fun p' hp' => ?_) ⟨0, rfl⟩
          rw [hp] at hp'
          cases hp'
          exact ⟨hok, hbad, Bool.eq_false_iff.mpr hdata, hend⟩
  · simp only [hread]
    exact .ignoreAnswer x queue t hstage (fun p hp' => absurd hp' (hp p)) hnoticed

theorem settle_eq (d : Download) (queue : List Arrival) (r : Reply) :
    d.settle queue (.ok r) = .next (d.after r) queue r.packets := rfl

theorem make_tidy {size : Nat} {buffer : ReorderBuffer} (h : ReorderBuffer.make size = .ok buffer) :
    Session.Tidy { buffer := buffer } := by
  unfold ReorderBuffer.make SlotRing.forWindow at h
  split at h
  · rename_i hsize
    cases h
    exact Session.tidy_new hsize.1
  · cases h

theorem createFile_moves {first : Option Packet} (hstage : d.stage = .answered first)
    (queue : List Arrival) : Moves d queue (d.createFile first queue) := by
  unfold createFile
  cases hfetch : d.fetch.creatable with
  | false => exact .uncreatable queue first hstage hfetch
  | true =>
      simp only [Bool.not_true, Bool.false_eq_true, if_false]
      cases hmake : ReorderBuffer.make d.request.parameters.window.toNat with
      | error e => exact .unbuffered queue first e hstage hmake
      | ok buffer =>
          cases first with
          | none => exact .opened queue buffer hstage hmake
          | some p =>
              rcases Session.take_cases (make_tidy hmake) d.statistics p with
                ⟨a, hr, hrefuses⟩ | ⟨r, hr, htakes⟩
              · simp only [hr]
                exact .openedBroken queue buffer p a hstage hmake hrefuses
              · simp only [hr, settle_eq]
                exact .openedWith queue buffer p r hstage hmake htakes

theorem receive_moves {s : Session} (htidy : s.Tidy) (hstage : d.stage = .receiving s) (x : Arrival)
    (queue : List Arrival) : Moves d (x :: queue) (d.receive s x queue) := by
  unfold receive
  by_cases hsource : x.source = d.peer
  · rw [if_neg (by simpa using hsource)]
    rcases read_eq d x with ⟨p, hp, hread⟩ | ⟨t, hp, hread, hnoticed⟩
    · rcases Session.take_cases htidy d.statistics p with ⟨a, hr, hrefuses⟩ | ⟨r, hr, htakes⟩
      · simp only [hread, hr]
        exact .broken x queue p s a hstage hsource hp hrefuses
      · simp only [hread, hr, settle_eq]
        exact .take x queue p s r hstage hsource hp htakes
    · simp only [hread]
      exact .ignore x queue t s hstage (Or.inr hp) hnoticed
  · rw [if_pos hsource]
    exact .ignore x queue d.statistics s hstage (Or.inl hsource) ⟨0, rfl⟩

/-- A download does nothing else. -/
theorem step_moves (htidy : ∀ s, d.session = some s → s.Tidy) (queue : List Arrival) :
    Moves d queue (d.step queue) := by
  unfold step
  cases hstage : d.stage with
  | asking => exact .ask queue hstage
  | asked => exact beginWait_moves hstage queue
  | handshake =>
      cases queue with
      | nil => exact .wait (Or.inl hstage)
      | cons x queue => exact answer_moves hstage x queue
  | answered first => exact createFile_moves hstage queue
  | receiving s =>
      cases queue with
      | nil => exact .wait (Or.inr ⟨s, hstage⟩)
      | cons x queue =>
          refine receive_moves (htidy s ?_) hstage x queue
          rw [session, hstage]
  | silent s => exact .silent queue s hstage
  | complete s => exact .finish queue s hstage

end Download

end SelectiveReject
