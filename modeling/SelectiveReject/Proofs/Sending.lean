import SelectiveReject.Proofs.Window
import SelectiveReject.Proofs.Receiving
import SelectiveReject.Upload

/-!
# What an upload does with its file

`Serving.Goes` lists the steps of an upload whose file is open, and `step_spec` says that there are no
others.  An upload `Fits` a consignment when its window keeps the pieces from `lower` to `current`, the rest of
the file is unread, and it has counted what it sent for the first time.

```
sending     piece current, or the end behind the last piece
listening   an acknowledgement moves lower, a request is answered with the piece, the farewell ends it
overdue     the piece lower, or the end when every piece is acknowledged
```
-/

namespace SelectiveReject

namespace Serving

/-- The end of the file has been announced. -/
def Ended (s : Serving) : Prop := s.eofNumber ≠ none

/-- The upload sends the pieces of the file. -/
structure Fits (j : Consignment) (s : Serving) : Prop where
  request : s.request = j.request
  window : s.window.Keeps j.piece
  size : s.window.size = j.window
  reached : s.window.current ≤ j.last + 1
  unread : s.unread = some (j.file.drop ((s.window.current - 1) * j.buffer))
  ended : ∀ number, s.eofNumber = some number →
    number = j.last + 1 ∧ s.window.current = j.last + 1
  dataPackets : s.statistics.dataPackets = s.window.current - 1
  payloadBytes : s.statistics.payloadBytes = (j.upTo (s.window.current - 1)).length
  crc : s.crc = Crc32.start.update (j.upTo (s.window.current - 1))

/-- The window has room for one more packet. -/
def Open (s : Serving) : Prop := s.window.current < s.window.lower + s.window.size

instance (s : Serving) : Decidable s.Open := inferInstanceAs (Decidable (_ < _))

/-- What an upload is doing agrees with what it has sent. -/
def Doing (s : Serving) : Activity → Prop
  | .sending => ¬ s.Ended
  | .listening .more => ¬ s.Ended
  | .listening .room => ¬ s.Ended
  | .listening .farewell => s.Ended
  | .waiting .more => False
  | .waiting .room => ¬ s.Ended ∧ ¬ s.Open ∧ 1 ≤ s.retry.count
  | .waiting .farewell => s.Ended ∧ 1 ≤ s.retry.count
  | .overdue .more => False
  | .overdue .room => ¬ s.Ended ∧ ¬ s.Open
  | .overdue .farewell => s.Ended
  | .done => s.Ended

/-- The upload after the next piece was sent. -/
def sentPiece (j : Consignment) (s : Serving) : Serving :=
  let t := s.statistics
  { s with
    window := s.window.push (j.piece s.window.current)
    unread := some (j.file.drop (s.window.current * j.buffer))
    crc := s.crc.update (j.piece s.window.current)
    statistics := { t with
      payloadBytes := t.payloadBytes + (j.piece s.window.current).length
      packetsSent := t.packetsSent + 1
      dataPackets := t.dataPackets + 1 } }

/-- The upload after the end was announced. -/
def saidEnd (j : Consignment) (s : Serving) : Serving :=
  { s with eofNumber := some (j.last + 1) }.countSent

/-- The upload after a packet was sent again. -/
def sentAgain (s : Serving) (flag : Flag) : Serving :=
  let s := s.countSent
  let t := s.statistics
  let t := if flag = .srejData then { t with srejRetransmits := t.srejRetransmits + 1 }
    else { t with timeoutRetransmits := t.timeoutRetransmits + 1 }
  { s with statistics := t }

/-- The upload after an acknowledgement that moved its window. -/
def heardAck (s : Serving) (window : SendWindow) : Serving :=
  let t := s.statistics
  { s with window := window, statistics := { t with acksReceived := t.acksReceived + 1 } }

/-- The upload after it was asked for a packet. -/
def heardSrej (s : Serving) : Serving :=
  let t := s.statistics
  { s with statistics := { t with srejsReceived := t.srejsReceived + 1 } }

/-- The packet tells the upload something: it acknowledges a packet that waits, or asks for one, or
confirms the end. -/
def Tells (s : Serving) (p : Packet) : Prop :=
  (p.flag = .ack ∧ s.window.Holds p.seq) ∨ (p.flag = .srej ∧ s.window.Holds p.seq) ∨
    (p.flag = .eofAck ∧ s.eofNumber = some p.seq)

/-- Statistics that differ at most in what has been received. -/
structure SameSent (t t' : Statistics) : Prop where
  packetsSent : t'.packetsSent = t.packetsSent
  dataPackets : t'.dataPackets = t.dataPackets
  srejRetransmits : t'.srejRetransmits = t.srejRetransmits
  timeoutRetransmits : t'.timeoutRetransmits = t.timeoutRetransmits
  acksSent : t'.acksSent = t.acksSent
  srejsSent : t'.srejsSent = t.srejsSent
  payloadBytes : t'.payloadBytes = t.payloadBytes

/-- The steps of an upload whose file is open. -/
inductive Goes (j : Consignment) (s : Serving) : Activity → List Arrival → Move Upload → Prop
  | piece (queue : List Arrival) (hopen : s.Open) (hmore : s.window.current ≤ j.last) :
      Goes j s .sending queue (.next (.serving (s.sentPiece j) (.listening .more)) queue
        [⟨UInt32.ofNat s.window.current, .data, j.piece s.window.current⟩])
  | announce (queue : List Arrival) (hopen : s.Open) (hend : s.window.current = j.last + 1) :
      Goes j s .sending queue (.next (.serving (s.saidEnd j) (.listening .farewell)) queue
        [.control .endOfFile (j.last + 1)])
  | closed (queue : List Arrival) (hclosed : ¬ s.Open) :
      Goes j s .sending queue (.next (.serving s (.listening .room)) queue [])
  | pass (goal : Goal) (x : Arrival) (queue : List Arrival) (t : Statistics)
      (hsame : SameSent s.statistics t)
      (hother : x.source ≠ s.client ∨ ∀ p, x.packet = .ok p → ¬ s.Tells p) :
      Goes j s (.listening goal) (x :: queue)
        (.next (.serving { s with statistics := t } (.listening goal)) queue [])
  | acked (goal : Goal) (x : Arrival) (queue : List Arrival) (p : Packet)
      (hsource : x.source = s.client) (hp : x.packet = .ok p) (hflag : p.flag = .ack)
      (hseq : s.window.Holds p.seq) : Goes j s (.listening goal) (x :: queue)
        (.next (.serving (s.heardAck (s.window.passTo (p.seq + 1))) (.listening goal)) queue [])
  | asked (goal : Goal) (x : Arrival) (queue : List Arrival) (p : Packet)
      (hsource : x.source = s.client) (hp : x.packet = .ok p) (hflag : p.flag = .srej)
      (hseq : s.window.Holds p.seq) :
      Goes j s (.listening goal) (x :: queue)
        (.next (.serving (s.heardSrej.sentAgain .srejData) (.listening goal)) queue
          [⟨UInt32.ofNat p.seq, .srejData, j.piece p.seq⟩])
  | confirmed (goal : Goal) (x : Arrival) (queue : List Arrival) (p : Packet)
      (hsource : x.source = s.client) (hp : x.packet = .ok p) (hflag : p.flag = .eofAck)
      (hseq : s.eofNumber = some p.seq) :
      Goes j s (.listening goal) (x :: queue) (.next (.serving s .done) queue [])
  | goOn (goal : Goal) (hgoal : goal = .more ∨ goal = .room ∧ s.Open) :
      Goes j s (.listening goal) [] (.next (.serving s .sending) [] [])
  | rest (goal : Goal) (hgoal : goal = .farewell ∨ goal = .room ∧ ¬ s.Open)
      (hpatient : s.retry.Patient) :
      Goes j s (.listening goal) [] (.next (.serving
        { s with retry := { s.retry with count := s.retry.count + 1 } } (.waiting goal)) [] [])
  | giveUp (goal : Goal) (hpatient : ¬ s.retry.Patient) :
      Goes j s (.listening goal) [] (.stop (.error s.retry.refusal))
  | wait (goal : Goal) : Goes j s (.waiting goal) [] .wait
  | wake (goal : Goal) (x : Arrival) (queue : List Arrival) :
      Goes j s (.waiting goal) (x :: queue)
        (.next (.serving { s with retry := s.retry.reset } (.listening goal)) (x :: queue) [])
  | again (goal : Goal) (queue : List Arrival) (hheld : s.window.lower < s.window.current) :
      Goes j s (.overdue goal) queue (.next (.serving (s.sentAgain .timeoutData) (.listening goal))
        queue [⟨UInt32.ofNat s.window.lower, .timeoutData, j.piece s.window.lower⟩])
  | announceAgain (queue : List Arrival) (hall : s.window.lower = s.window.current) :
      Goes j s (.overdue .farewell) queue
        (.next (.serving (s.saidEnd j) (.listening .farewell)) queue
          [.control .endOfFile (j.last + 1)])
  | finish (queue : List Arrival) :
      Goes j s .done queue (.stop (.ok { s.statistics with digest := s.crc.digest }))

variable {j : Consignment} {s : Serving} {activity : Activity}

theorem isOpen_eq (h : s.Fits j) : s.window.isOpen = .ok (decide s.Open) :=
  SendWindow.isOpen_eq h.window.toValid

theorem Fits.one_le_current (h : s.Fits j) : 1 ≤ s.window.current :=
  Nat.le_trans h.window.first h.window.ordered

/-- The rest of the file begins with the next piece. -/
theorem chunk_eq (h : s.Fits j) :
    s.chunk (j.file.drop ((s.window.current - 1) * j.buffer)) =
      (j.piece s.window.current, j.file.drop (s.window.current * j.buffer)) := by
  obtain ⟨k, hk⟩ : ∃ k, s.window.current = k + 1 := ⟨s.window.current - 1, by
    have := h.one_le_current
    omega⟩
  unfold chunk
  rw [h.request, List.drop_drop, hk, Nat.add_sub_cancel]
  show (_, j.file.drop (k * j.buffer + j.buffer)) = _
  rw [← Nat.succ_mul]
  rfl

theorem announceEnd_eq (hend : s.eofNumber.getD s.window.current = j.last + 1) :
    s.announceEnd = (s.saidEnd j, .control .endOfFile (j.last + 1)) := by
  simp only [announceEnd, hend]
  rfl

theorem resend_eq (h : s.Fits j) {seq : Nat} (hseq : s.window.Holds seq) (flag : Flag) :
    s.resend seq flag = (s.sentAgain flag, [⟨UInt32.ofNat seq, flag, j.piece seq⟩]) := by
  simp only [resend, h.window.resend_eq hseq]
  rfl

theorem resend_of_not_holds {seq : Nat} (hseq : ¬ s.window.Holds seq) (flag : Flag) :
    s.resend seq flag = (s, []) := by
  simp only [resend, SendWindow.resend_of_not_holds hseq]

theorem sendNext_goes (h : s.Fits j) (hdoing : ¬ s.Ended) (hopen : s.Open)
    (queue : List Arrival) : Goes j s .sending queue (s.sendNext queue) := by
  have hlast := j.last_succ_lt
  have hreached := h.reached
  have hnil := @Consignment.piece_eq_nil_iff j _ h.one_le_current
  unfold sendNext
  simp only [h.unread, chunk_eq h]
  cases hpiece : j.piece s.window.current with
  | nil =>
      rw [hpiece] at hnil
      have hend : s.window.current = j.last + 1 := by
        have := hnil.mp rfl
        omega
      have hget : s.eofNumber.getD s.window.current = j.last + 1 := by
        rw [Classical.not_not.mp hdoing]
        exact hend
      simp only [announceEnd_eq hget]
      exact .announce queue hopen hend
  | cons byte rest =>
      have hmore : s.window.current ≤ j.last := by
        rcases Nat.lt_or_ge j.last s.window.current with hlt | hle
        · have := hnil.mpr hlt
          rw [hpiece] at this
          simp at this
        · exact hle
      have hword : s.window.current + 1 < limit32 := by omega
      have hadd := SendWindow.addPane_eq h.window.toValid hopen hword (byte :: rest)
      have hgoes := @Goes.piece j s queue hopen hmore
      simp only [hadd]
      rw [← hpiece]
      exact hgoes

/-- What a packet tells, by its flag. -/
theorem tells_iff {p : Packet} : s.Tells p ↔
    match p.flag with
    | .ack | .srej => s.window.Holds p.seq
    | .eofAck => s.eofNumber = some p.seq
    | _ => False := by
  unfold Tells
  cases p.flag <;> simp

theorem feedback_goes (h : s.Fits j) (goal : Goal) {x : Arrival} {p : Packet}
    (hsource : x.source = s.client) (hp : x.packet = .ok p) (queue : List Arrival) :
    Goes j s (.listening goal) (x :: queue) (s.feedback goal p queue) := by
  have hord := h.window.ordered
  have hlast := j.last_succ_lt
  have hreached := h.reached
  -- a packet that tells nothing is passed over
  have hpass : ∀ t, SameSent s.statistics t → ¬ s.Tells p → Goes j s (.listening goal) (x :: queue)
      (.next (.serving { s with statistics := t } (.listening goal)) queue []) := by
    intro t hsame hnot
    refine .pass goal x queue t hsame (Or.inr fun q hq => ?_)
    rw [hp] at hq
    cases hq
    exact hnot
  unfold feedback
  cases hflag : p.flag with
  | ack =>
      by_cases hseq : s.window.Holds p.seq
      · simp only [(h.window.toValid.seated (by omega)).ackThrough_held hseq]
        exact .acked goal x queue p hsource hp hflag hseq
      · have hnot : ¬ s.Tells p := by
          rw [tells_iff, hflag]
          exact hseq
        by_cases hold : p.seq < s.window.lower
        · simp only [SendWindow.ackThrough_old hold]
          exact hpass _ ⟨rfl, rfl, rfl, rfl, rfl, rfl, rfl⟩ hnot
        · have hunknown : s.window.current ≤ p.seq := by
            rcases Nat.lt_or_ge p.seq s.window.current with hlt | hge
            · exact absurd ⟨by omega, hlt⟩ hseq
            · exact hge
          simp only [SendWindow.ackThrough_unknown hord hunknown]
          exact hpass _ ⟨rfl, rfl, rfl, rfl, rfl, rfl, rfl⟩ hnot
  | srej =>
      by_cases hseq : s.window.Holds p.seq
      · have hfits : s.heardSrej.Fits j := ⟨h.request, h.window, h.size, h.reached, h.unread,
          h.ended, h.dataPackets, h.payloadBytes, h.crc⟩
        have hresend := resend_eq hfits hseq .srejData
        unfold heardSrej at hresend
        simp only [hresend]
        exact .asked goal x queue p hsource hp hflag hseq
      · have hnot : ¬ s.Tells p := by
          rw [tells_iff, hflag]
          exact hseq
        have hresend := @resend_of_not_holds s.heardSrej _ hseq .srejData
        unfold heardSrej at hresend
        simp only [hresend]
        exact hpass _ ⟨rfl, rfl, rfl, rfl, rfl, rfl, rfl⟩ hnot
  | eofAck =>
      by_cases hseq : s.eofNumber = some p.seq
      · simp only [if_pos hseq]
        exact .confirmed goal x queue p hsource hp hflag hseq
      · simp only [if_neg hseq]
        refine hpass s.statistics ⟨rfl, rfl, rfl, rfl, rfl, rfl, rfl⟩ ?_
        rw [tells_iff, hflag]
        exact hseq
  | fname | fnameOk | endOfFile | data | srejData | timeoutData | fnameBad =>
      refine hpass s.statistics ⟨rfl, rfl, rfl, rfl, rfl, rfl, rfl⟩ ?_
      rw [tells_iff, hflag]
      exact id

theorem hear_goes (h : s.Fits j) (goal : Goal) (x : Arrival) (queue : List Arrival) :
    Goes j s (.listening goal) (x :: queue) (s.hear goal x queue) := by
  unfold hear
  by_cases hsource : x.source = s.client
  · rw [if_neg (by simpa using hsource)]
    cases hp : x.packet with
    | ok p => exact feedback_goes h goal hsource hp queue
    | error e =>
        have hother : ∀ p, x.packet = .ok p → ¬ s.Tells p := by
          intro p hok
          rw [hp] at hok
          cases hok
        cases e <;> exact .pass goal x queue _ ⟨rfl, rfl, rfl, rfl, rfl, rfl, rfl⟩ (Or.inr hother)
  · rw [if_pos hsource]
    exact .pass goal x queue s.statistics ⟨rfl, rfl, rfl, rfl, rfl, rfl, rfl⟩ (Or.inl hsource)

/-- An upload whose patience is over gives the client up. -/
theorem beginWait_of_not_patient (hpatient : ¬ s.retry.Patient) (goal : Goal)
    (queue : List Arrival) : s.beginWait goal queue = .stop (.error s.retry.refusal) := by
  unfold beginWait Retry.refusal
  by_cases hword : s.retry.count + 1 < limit32
  · have hover : ¬ s.retry.count + 1 ≤ s.retry.maxTries := fun h => hpatient ⟨h, hword⟩
    rw [Retry.attempt_of_lt hword, decide_eq_false hover, if_pos hword]
    rfl
  · rw [if_neg hword, Retry.attempt, Word.plus, if_neg hword]
    rfl

theorem beginWait_goes {goal : Goal} (hgoal : goal = .farewell ∨ goal = .room ∧ ¬ s.Open) :
    Goes j s (.listening goal) [] (s.beginWait goal []) := by
  by_cases hpatient : s.retry.Patient
  · rw [beginWait, Retry.attempt_eq hpatient]
    exact .rest goal hgoal hpatient
  · rw [beginWait_of_not_patient hpatient]
    exact .giveUp goal hpatient

theorem heardAll_goes (h : s.Fits j) (goal : Goal) :
    Goes j s (.listening goal) [] (s.heardAll goal) := by
  cases goal with
  | more => exact .goOn .more (Or.inl rfl)
  | farewell => exact beginWait_goes (Or.inl rfl)
  | room =>
      unfold heardAll
      rw [isOpen_eq h]
      by_cases hopen : s.Open
      · rw [decide_eq_true hopen]
        exact .goOn .room (Or.inr ⟨rfl, hopen⟩)
      · rw [decide_eq_false hopen]
        exact beginWait_goes (Or.inr ⟨rfl, hopen⟩)

theorem catchUp_goes (h : s.Fits j) {goal : Goal} (hdoing : s.Doing (.overdue goal))
    (queue : List Arrival) : Goes j s (.overdue goal) queue (s.catchUp goal queue) := by
  have hord := h.window.ordered
  have hwindow := j.window_range
  have hsize := h.size
  unfold catchUp
  rw [h.window.oldestUnacked_eq]
  by_cases hheld : s.window.lower < s.window.current
  · rw [if_pos hheld]
    simp only [resend_eq h ⟨Nat.le_refl _, hheld⟩]
    exact .again goal queue hheld
  · rw [if_neg hheld]
    cases goal with
    | more => exact hdoing.elim
    | room =>
        obtain ⟨-, hclosed⟩ := hdoing
        unfold Open at hclosed
        omega
    | farewell =>
        obtain ⟨number, hnumber⟩ := Option.ne_none_iff_exists'.mp hdoing
        have hend : s.eofNumber.getD s.window.current = j.last + 1 := by
          rw [hnumber]
          exact (h.ended number hnumber).1
        simp only [announceEnd_eq hend]
        exact .announceAgain queue (by omega)

/-- An upload whose file is open does nothing else. -/
theorem step_spec (h : s.Fits j) (hdoing : s.Doing activity) (queue : List Arrival) :
    Goes j s activity queue (s.step queue activity) := by
  cases activity with
  | sending =>
      unfold step
      rw [isOpen_eq h]
      by_cases hopen : s.Open
      · rw [decide_eq_true hopen]
        exact sendNext_goes h hdoing hopen queue
      · rw [decide_eq_false hopen]
        exact .closed queue hopen
  | listening goal =>
      cases queue with
      | nil => exact heardAll_goes h goal
      | cons x queue => exact hear_goes h goal x queue
  | waiting goal =>
      cases queue with
      | nil => exact .wait goal
      | cons x queue => exact .wake goal x queue
  | overdue goal => exact catchUp_goes h hdoing queue
  | done => exact .finish queue

/-! ## What the steps keep -/

/-- What an upload has reached never goes back. -/
structure Grows (s s' : Serving) : Prop where
  lower : s.window.lower ≤ s'.window.lower
  current : s.window.current ≤ s'.window.current
  ended : s.Ended → s'.Ended
  client : s'.client = s.client
  maxTries : s'.retry.maxTries = s.retry.maxTries

theorem Fits.sentPiece (h : s.Fits j) (hopen : s.Open) (hmore : s.window.current ≤ j.last)
    (hdoing : ¬ s.Ended) : (s.sentPiece j).Fits j := by
  obtain ⟨k, hk⟩ : ∃ k, s.window.current = k + 1 := ⟨s.window.current - 1, by
    have := h.one_le_current
    omega⟩
  have hdata := h.dataPackets
  have hbytes := h.payloadBytes
  have hcrc := h.crc
  constructor
  · exact h.request
  · exact h.window.push hopen
  · exact (SendWindow.size_push _).trans h.size
  · exact Nat.succ_le_succ hmore
  · rfl
  · intro number hnumber
    exact absurd hnumber (by rw [show (s.sentPiece j).eofNumber = none from
      Classical.not_not.mp hdoing]; simp)
  · show s.statistics.dataPackets + 1 = s.window.current + 1 - 1
    omega
  · show s.statistics.payloadBytes + (j.piece s.window.current).length =
      (j.upTo (s.window.current + 1 - 1)).length
    rw [hbytes, hk, Nat.add_sub_cancel, Nat.add_sub_cancel, Consignment.upTo_succ, List.length_append]
  · show s.crc.update (j.piece s.window.current) =
      Crc32.start.update (j.upTo (s.window.current + 1 - 1))
    rw [hcrc, hk, Nat.add_sub_cancel, Nat.add_sub_cancel, Consignment.upTo_succ, Crc32.update_append]

theorem Fits.saidEnd (h : s.Fits j) (hend : s.window.current = j.last + 1) :
    (s.saidEnd j).Fits j where
  request := h.request
  window := h.window
  size := h.size
  reached := h.reached
  unread := h.unread
  ended _ hnumber := ⟨(Option.some.inj hnumber).symm, hend⟩
  dataPackets := h.dataPackets
  payloadBytes := h.payloadBytes
  crc := h.crc

theorem Fits.sentAgain (h : s.Fits j) (flag : Flag) : (s.sentAgain flag).Fits j where
  request := h.request
  window := h.window
  size := h.size
  reached := h.reached
  unread := h.unread
  ended := h.ended
  dataPackets := by
    unfold Serving.sentAgain
    split <;> exact h.dataPackets
  payloadBytes := by
    unfold Serving.sentAgain
    split <;> exact h.payloadBytes
  crc := h.crc

theorem Fits.heardAck (h : s.Fits j) {seq : Nat} (hseq : s.window.Holds seq) :
    (s.heardAck (s.window.passTo (seq + 1))).Fits j where
  request := h.request
  window := h.window.passTo (Nat.le_succ_of_le hseq.1) hseq.2
  size := (SendWindow.size_passTo _).trans h.size
  reached := h.reached
  unread := h.unread
  ended := h.ended
  dataPackets := h.dataPackets
  payloadBytes := h.payloadBytes
  crc := h.crc

/-- What an upload does while it listens depends on its announcement only. -/
theorem Doing.listening {s' : Serving} {goal : Goal} (h : s.Doing (.listening goal))
    (heof : s'.eofNumber = s.eofNumber) : s'.Doing (.listening goal) := by
  cases goal <;>
  · unfold Doing Ended at *
    rw [heof]
    exact h

theorem Doing.overdue {goal : Goal} (h : s.Doing (.waiting goal)) : s.Doing (.overdue goal) := by
  cases goal with
  | more => exact h
  | room => exact ⟨h.1, h.2.1⟩
  | farewell => exact h.1

/-- Each step keeps the upload fitting, and what it is doing in agreement with it. -/
theorem Goes.fits {s' : Serving} {activity' : Activity} {queue queue' : List Arrival}
    {sent : List Packet} (h : s.Fits j) (hdoing : s.Doing activity)
    (hg : Goes j s activity queue (.next (.serving s' activity') queue' sent)) :
    s'.Fits j ∧ s'.Doing activity' ∧ Grows s s' := by
  have hsame : Grows s s := ⟨Nat.le_refl _, Nat.le_refl _, id, rfl, rfl⟩
  cases hg with
  | piece _ hopen hmore =>
      exact ⟨h.sentPiece hopen hmore hdoing, hdoing, Nat.le_refl _, Nat.le_succ _, id, rfl, rfl⟩
  | announce _ hopen hend =>
      exact ⟨h.saidEnd hend, Option.some_ne_none _, Nat.le_refl _, Nat.le_refl _,
        fun _ => Option.some_ne_none _, rfl, rfl⟩
  | closed _ hclosed => exact ⟨h, hdoing, hsame⟩
  | pass goal x _ t hstat hother =>
      refine ⟨⟨h.request, h.window, h.size, h.reached, h.unread, h.ended, ?_, ?_, h.crc⟩,
        hdoing.listening rfl, Nat.le_refl _, Nat.le_refl _, id, rfl, rfl⟩
      · exact hstat.dataPackets.trans h.dataPackets
      · exact hstat.payloadBytes.trans h.payloadBytes
  | acked goal x _ p hsource hp hflag hseq =>
      exact ⟨h.heardAck hseq, hdoing.listening rfl, Nat.le_succ_of_le hseq.1, Nat.le_refl _, id, rfl,
        rfl⟩
  | asked goal x _ p hsource hp hflag hseq =>
      have hfits : s.heardSrej.Fits j := ⟨h.request, h.window, h.size, h.reached, h.unread,
        h.ended, h.dataPackets, h.payloadBytes, h.crc⟩
      exact ⟨hfits.sentAgain .srejData, hdoing.listening rfl, Nat.le_refl _, Nat.le_refl _, id,
        rfl, rfl⟩
  | confirmed goal x _ p hsource hp hflag hseq =>
      refine ⟨h, ?_, hsame⟩
      show s.eofNumber ≠ none
      rw [hseq]
      exact Option.some_ne_none _
  | goOn goal hgoal =>
      refine ⟨h, ?_, hsame⟩
      rcases hgoal with rfl | ⟨rfl, -⟩ <;> exact hdoing
  | rest goal hgoal hpatient =>
      refine ⟨⟨h.request, h.window, h.size, h.reached, h.unread, h.ended, h.dataPackets,
        h.payloadBytes, h.crc⟩, ?_, Nat.le_refl _, Nat.le_refl _, id, rfl, rfl⟩
      rcases hgoal with rfl | ⟨rfl, hclosed⟩
      · exact ⟨hdoing, Nat.le_add_left 1 s.retry.count⟩
      · exact ⟨hdoing, hclosed, Nat.le_add_left 1 s.retry.count⟩
  | wake goal x queue =>
      refine ⟨⟨h.request, h.window, h.size, h.reached, h.unread, h.ended, h.dataPackets,
        h.payloadBytes, h.crc⟩, ?_, Nat.le_refl _, Nat.le_refl _, id, rfl, rfl⟩
      cases goal with
      | more => exact hdoing.elim
      | room => exact hdoing.1
      | farewell => exact hdoing.1
  | again goal _ hheld =>
      refine ⟨h.sentAgain .timeoutData, ?_, Nat.le_refl _, Nat.le_refl _, id, rfl, rfl⟩
      cases goal with
      | more => exact hdoing.elim
      | room => exact hdoing.1
      | farewell => exact hdoing
  | announceAgain _ hall =>
      have hend : s.window.current = j.last + 1 := by
        obtain ⟨number, hnumber⟩ := Option.ne_none_iff_exists'.mp hdoing
        exact (h.ended number hnumber).2
      exact ⟨h.saidEnd hend, Option.some_ne_none _, Nat.le_refl _, Nat.le_refl _,
        fun _ => Option.some_ne_none _, rfl, rfl⟩

/-- The waits of an upload stay within their limit. -/
theorem Goes.within {s' : Serving} {activity' : Activity} {queue queue' : List Arrival}
    {sent : List Packet} {limit : Nat}
    (hg : Goes j s activity queue (.next (.serving s' activity') queue' sent))
    (h : s.retry.Within limit) : s'.retry.Within limit := by
  cases hg with
  | rest _ _ hpatient => exact h.rest hpatient
  | wake => exact h.reset
  | piece | announce | closed | pass | acked | asked | confirmed | goOn | again | announceAgain =>
      exact h

/-- Everything that is sent fits a datagram. -/
theorem Goes.short {u : Upload} {queue queue' : List Arrival} {sent : List Packet}
    (hg : Goes j s activity queue (.next u queue' sent)) :
    ∀ p ∈ sent, p.payload.length ≤ Packet.maxPayload := by
  have hone : ∀ q : Packet, q.payload.length ≤ Packet.maxPayload →
      ∀ p ∈ [q], p.payload.length ≤ Packet.maxPayload := by
    intro q hq p hp
    rw [List.mem_singleton] at hp
    rwa [hp]
  cases hg with
  | piece => exact hone _ (j.length_piece _)
  | announce => exact hone _ (Nat.zero_le _)
  | asked => exact hone _ (j.length_piece _)
  | again => exact hone _ (j.length_piece _)
  | announceAgain => exact hone _ (Nat.zero_le _)
  | closed | pass | acked | confirmed | goOn | rest | wake => simp

/-! ## Opening the file -/

/-- An upload that has just opened its file. -/
def opened (config : Config) (j : Consignment) (client : Address) : Serving where
  request := j.request
  client := client
  shortTimeout := config.shortTimeout
  retry := ⟨0, config.maxTries⟩
  window := ⟨SlotRing.filled j.window j.window_pos .vacant, 1, 1⟩
  unread := some j.file
  statistics := { packetsSent := 1 }

theorem fits_opened (config : Config) (j : Consignment) (client : Address) :
    (opened config j client).Fits j where
  request := rfl
  window := SendWindow.keeps_new _
  size := SlotRing.size_filled _ j.window_pos _
  reached := Nat.le_add_left 1 j.last
  unread := by
    show some j.file = some (j.file.drop (0 * j.buffer))
    rw [Nat.zero_mul, List.drop_zero]
  ended _ h := by cases h
  dataPackets := rfl
  payloadBytes := by
    show 0 = (j.upTo 0).length
    rw [Consignment.upTo_zero]
    rfl
  crc := by
    show Crc32.start = Crc32.start.update (j.upTo 0)
    rw [Consignment.upTo_zero]
    rfl

end Serving

/-- The client is told that the file has been opened. -/
theorem Upload.step_opening (config : Config) (j : Consignment) (client : Address) (queue : List Arrival) :
    Machine.step (Upload.opening config j.request client (.contents j.file)) queue =
      .next (.serving (Serving.opened config j client) .sending) queue [.control .fnameOk 0] := by
  have hwindow := j.window_range
  have hmake : SendWindow.make j.request.parameters.window.toNat =
      .ok (Serving.opened config j client).window := SendWindow.make_eq hwindow.1 hwindow.2
  show Upload.openFile config j.request client (some j.file) queue = _
  unfold Upload.openFile
  rw [hmake]
  rfl

end SelectiveReject
