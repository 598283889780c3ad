import SelectiveReject.Proofs.UploadEndings
import SelectiveReject.Proofs.Intake
import Mathlib.Algebra.GroupWithZero.Nat

/-!
# The statistics account for every packet

Each step adds to the counters of a machine exactly the packets that it hands to its channel, whatever has
arrived (`Statistics.Counts`), so they are those of its log (`Statistics.Reckons`), and each packet in it is
of one of a few kinds.  The channel counts those that do not leave (`Balanced`).  At the end this comes to:

```
upload      packetsSent = 1 + dataPackets + srejRetransmits + timeoutRetransmits + ends announced
download    packetsSent = requests + acksSent + srejsSent + 1
both        packetsSent = datagrams that left + injectedDrops
```
-/

namespace SelectiveReject

namespace Scenario

/-- The packet that was handed to the channel. -/
def Deed.packet? : Deed → Option Packet
  | .sent p => some p
  | .read _ => none

/-- The packets that were handed to the channel, in order. -/
def sentPackets (log : List Deed) : List Packet := log.filterMap Deed.packet?

/-- How many packets with a flag were handed to the channel. -/
def sentWith (flag : Flag) (log : List Deed) : Nat := (sentPackets log).countP (·.flag = flag)

variable {flag : Flag} {log : List Deed} {p : Packet}

theorem mem_sentPackets : p ∈ sentPackets log ↔ .sent p ∈ log := by
  unfold sentPackets
  rw [List.mem_filterMap]
  constructor
  · rintro ⟨deed, hmem, hp⟩
    cases deed with
    | read x => cases hp
    | sent q =>
        cases hp
        exact hmem
  · exact fun hmem => ⟨.sent p, hmem, rfl⟩

theorem sentPackets_append_deeds (log : List Deed) (queue queue' : List Arrival) (sent : List Packet) :
    sentPackets (log ++ deeds queue queue' sent) = sentPackets log ++ sent := by
  have hread : ∀ read : List Arrival, (read.map Deed.read).filterMap Deed.packet? = [] := fun read => by
    rw [List.filterMap_map, List.filterMap_eq_nil_iff]
    exact fun _ _ => rfl
  have hsent : (sent.map Deed.sent).filterMap Deed.packet? = sent := by
    rw [List.filterMap_map]
    exact List.filterMap_some
  unfold sentPackets deeds
  rw [List.filterMap_append, List.filterMap_append, hread, hsent, List.nil_append]

theorem sentWith_append_deeds (flag : Flag) (log : List Deed) (queue queue' : List Arrival)
    (sent : List Packet) :
    sentWith flag (log ++ deeds queue queue' sent) =
      sentWith flag log + sent.countP (·.flag = flag) := by
  unfold sentWith
  rw [sentPackets_append_deeds, List.countP_append]

end Scenario

open Scenario

/-- Packets are as many as there are of each kind. -/
theorem length_eq_sum {kinds : List Flag} (hkinds : kinds.Nodup) {ps : List Packet}
    (h : ∀ p ∈ ps, p.flag ∈ kinds) :
    ps.length = (kinds.map fun flag => ps.countP (·.flag = flag)).sum := by
  induction kinds generalizing ps with
  | nil =>
      rw [List.eq_nil_iff_forall_not_mem.mpr fun p hp => List.not_mem_nil (h p hp)]
      rfl
  | cons kind kinds ih =>
      obtain ⟨hnew, hkinds⟩ := List.nodup_cons.mp hkinds
      -- the packets of the other kinds are counted by the induction hypothesis
      let others := ps.filter fun p => ¬ p.flag = kind
      have hothers : others.length = (kinds.map fun flag => others.countP (·.flag = flag)).sum := by
        refine ih hkinds fun p hp => ?_
        obtain ⟨hmem, hne⟩ := List.mem_filter.mp hp
        exact (List.mem_cons.mp (h p hmem)).resolve_left (of_decide_eq_true hne)
      have hsame : ∀ flag ∈ kinds, others.countP (·.flag = flag) = ps.countP (·.flag = flag) := by
        intro flag hflag
        rw [List.countP_filter]
        refine List.countP_congr fun p _ => ?_
        have hne : flag ≠ kind := fun heq => hnew (heq ▸ hflag)
        grind
      have hsplit : ps.length = ps.countP (·.flag = kind) + others.length := by
        rw [← List.countP_eq_length_filter,
          List.length_eq_countP_add_countP fun p => decide (p.flag = kind)]
        simp
      rw [List.map_cons, List.sum_cons, hsplit, hothers, List.map_congr_left hsame]

/-! ## What a step counts -/

/-- The counters have gone up by the packets that were sent. -/
structure Statistics.Counts (t : Statistics) (sent : List Packet) (t' : Statistics) : Prop where
  packetsSent : t'.packetsSent = t.packetsSent + sent.length
  dataPackets : t'.dataPackets = t.dataPackets + sent.countP (·.flag = .data)
  srejRetransmits : t'.srejRetransmits = t.srejRetransmits + sent.countP (·.flag = .srejData)
  timeoutRetransmits : t'.timeoutRetransmits = t.timeoutRetransmits + sent.countP (·.flag = .timeoutData)
  acksSent : t'.acksSent = t.acksSent + sent.countP (·.flag = .ack)
  srejsSent : t'.srejsSent = t.srejsSent + sent.countP (·.flag = .srej)

/-- The counters are those of a log, in which all packets are of some kinds. -/
structure Statistics.Reckons (t : Statistics) (kinds : List Flag) (log : List Deed) : Prop where
  packetsSent : t.packetsSent = (sentPackets log).length
  dataPackets : t.dataPackets = sentWith .data log
  srejRetransmits : t.srejRetransmits = sentWith .srejData log
  timeoutRetransmits : t.timeoutRetransmits = sentWith .timeoutData log
  acksSent : t.acksSent = sentWith .ack log
  srejsSent : t.srejsSent = sentWith .srej log
  kinds : ∀ p ∈ sentPackets log, p.flag ∈ kinds

namespace Statistics

variable {t t' : Statistics} {sent : List Packet} {kinds : List Flag} {log : List Deed}

theorem Reckons.counts (h : t.Reckons kinds log) (hcounts : t.Counts sent t')
    (hkinds : ∀ p ∈ sent, p.flag ∈ kinds) (queue queue' : List Arrival) :
    t'.Reckons kinds (log ++ deeds queue queue' sent) where
  packetsSent := by rw [hcounts.packetsSent, h.packetsSent, sentPackets_append_deeds, List.length_append]
  dataPackets := by rw [hcounts.dataPackets, h.dataPackets, sentWith_append_deeds]
  srejRetransmits := by rw [hcounts.srejRetransmits, h.srejRetransmits, sentWith_append_deeds]
  timeoutRetransmits := by rw [hcounts.timeoutRetransmits, h.timeoutRetransmits, sentWith_append_deeds]
  acksSent := by rw [hcounts.acksSent, h.acksSent, sentWith_append_deeds]
  srejsSent := by rw [hcounts.srejsSent, h.srejsSent, sentWith_append_deeds]
  kinds p hp := by
    rw [sentPackets_append_deeds] at hp
    exact (List.mem_append.mp hp).elim (h.kinds p) (hkinds p)

/-- What is entered at the end is counted elsewhere. -/
theorem Reckons.ended (h : t.Reckons kinds log) (drops flips bytes : Nat) (digest : UInt32) :
    Reckons { t with
      injectedDrops := drops
      injectedFlips := flips
      payloadBytes := bytes
      digest := digest } kinds log :=
  ⟨h.packetsSent, h.dataPackets, h.srejRetransmits, h.timeoutRetransmits, h.acksSent, h.srejsSent, h.kinds⟩

/-- Every packet is of one kind. -/
theorem Reckons.sum (h : t.Reckons kinds log) (hkinds : kinds.Nodup) :
    t.packetsSent = (kinds.map fun kind => sentWith kind log).sum :=
  h.packetsSent.trans (length_eq_sum hkinds h.kinds)

end Statistics

theorem Serving.SameSent.counts {t t' : Statistics} (h : SameSent t t') : t.Counts [] t' :=
  ⟨h.packetsSent, h.dataPackets, h.srejRetransmits, h.timeoutRetransmits, h.acksSent, h.srejsSent⟩

theorem Download.Noticed.counts {t t' : Statistics} (h : Noticed t t') : t.Counts [] t' := by
  obtain ⟨count, rfl⟩ := h
  exact ⟨rfl, rfl, rfl, rfl, rfl, rfl⟩

/-! ## What has left -/

namespace Scenario.Encounter

variable {σ : Type} [Machine σ] {link : Link} {e : Encounter σ}

/-- Each packet that was handed to the channel has left or is counted as kept back. -/
structure Balanced (e : Encounter σ) (left : List Departure) : Prop where
  running : e.station.result = none →
    (sentPackets e.log).length = left.length + e.station.channel.dropped
  ended : ∀ t, e.station.result = some (.ok t) →
    (sentPackets e.log).length = left.length + t.injectedDrops

theorem leaving_of_stop {result : Except Stop Statistics}
    (hstop : Machine.step e.station.machine e.station.queue = .stop result) : e.leaving link .step = [] := by
  unfold leaving Station.advance
  rw [hstop]
  cases e.station.ended <;> rfl

theorem Balanced.act {next : Encounter σ} {left : List Departure} (h : e.Balanced left)
    {incident : Incident} (hact : e.act link incident = some next) :
    next.Balanced (left ++ e.leaving link incident) := by
  cases incident with
  | arrival x =>
      cases hact
      rw [show e.leaving link (.arrival x) = [] from rfl, List.append_nil]
      exact ⟨h.running, h.ended⟩
  | timer =>
      obtain ⟨-, rfl⟩ := act_timer hact
      rw [show e.leaving link .timer = [] from rfl, List.append_nil]
      exact ⟨h.running, h.ended⟩
  | step =>
      obtain ⟨hended, hcases⟩ := act_step hact
      rw [Station.ended, Option.isSome_eq_false_iff, Option.isNone_iff_eq_none] at hended
      have hbefore := h.running hended
      constructor
      · intro hrunning
        obtain ⟨sent, -, hsend, hlog⟩ := act_running hact hrunning
        have hcount : (e.leaving link .step).length + next.station.channel.dropped =
            e.station.channel.dropped + sent.length := (Channel.sendAll_carried hsend).count
        rw [hlog, sentPackets_append_deeds, List.length_append, List.length_append]
        omega
      · intro t ht
        rcases hcases with ⟨last, hstop, hstation, -, hlog⟩ | ⟨sent, channel, -, -, -, -, hfailed⟩
        · rw [leaving_of_stop hstop, List.append_nil, hlog, hbefore]
          rw [hstation] at ht
          cases last with
          | error stop => cases ht
          | ok t₀ =>
              cases ht
              rfl
        · obtain ⟨stop, hstop, -⟩ := hfailed _ ht
          cases hstop

/-- What an ended machine has sent is what has left, and what was kept back. -/
theorem sent_left {machine : σ} {faults : FaultModel} {incidents : List Incident} {t : Statistics}
    (hrun : (start machine faults).run link incidents = some e)
    (hresult : e.station.result = some (.ok t)) :
    (sentPackets e.log).length =
      ((start machine faults).departures link incidents).length + t.injectedDrops := by
  have hstart : (start machine faults).Balanced [] := ⟨fun _ => rfl, nofun⟩
  have hbalanced := run_keeps Balanced (fun _ _ _ _ h hact => h.act hact) hstart hrun
  exact hbalanced.ended t hresult

end Scenario.Encounter

/-! ## Uploads -/

/-- The packets that an upload with a file sends. -/
def uploadFlags : List Flag := [.fnameOk, .data, .srejData, .timeoutData, .endOfFile]

namespace Serving

variable {j : Consignment} {s s' : Serving} {activity activity' : Activity}
  {queue queue' : List Arrival} {sent : List Packet} {log : List Deed}

/-- A step counts what it sends, and does not greet the client again. -/
theorem Goes.counts (hg : Goes j s activity queue (.next (.serving s' activity') queue' sent)) :
    s.statistics.Counts sent s'.statistics ∧ ∀ p ∈ sent, p.flag ∈ uploadFlags.tail := by
  cases hg with
  | closed | acked | confirmed | goOn | rest | wake => exact ⟨⟨rfl, rfl, rfl, rfl, rfl, rfl⟩, nofun⟩
  | pass _ _ _ _ hsame => exact ⟨hsame.counts, nofun⟩
  | piece | announce | asked | again | announceAgain =>
      exact ⟨⟨rfl, rfl, rfl, rfl, rfl, rfl⟩, by simp [uploadFlags, Packet.control]⟩

/-- The counters of an upload are those of its log, and it has greeted the client once. -/
structure Reckoned (s : Serving) (log : List Deed) : Prop where
  reckons : s.statistics.Reckons uploadFlags log
  greeted : sentWith .fnameOk log = 1

theorem Reckoned.goes (h : s.Reckoned log)
    (hg : Goes j s activity queue (.next (.serving s' activity') queue' sent)) :
    s'.Reckoned (log ++ deeds queue queue' sent) := by
  obtain ⟨hcounts, hkinds⟩ := hg.counts
  constructor
  · exact h.reckons.counts hcounts (fun p hp => List.mem_of_mem_tail (hkinds p hp)) queue queue'
  · have hnone : sent.countP (·.flag = .fnameOk) = 0 := by
      rw [List.countP_eq_zero]
      intro p hp hgreeting
      have hkind := hkinds p hp
      rw [of_decide_eq_true hgreeting] at hkind
      exact absurd hkind (by decide)
    rw [sentWith_append_deeds, h.greeted, hnone]

end Serving

namespace Upload

variable {j : Consignment} {client : Address} {u u' : Upload} {queue queue' : List Arrival}
  {sent : List Packet} {log : List Deed}

/-- The counters of an upload with a file agree with its log. -/
def Reckoned (u : Upload) (log : List Deed) : Prop :=
  match u with
  | .opening .. | .refused .. => True
  | .serving s _ => s.Reckoned log

theorem Reckoned.expire (h : u.Reckoned log) : u.expire.Reckoned log := by
  match u with
  | .opening .. | .refused .. => exact h
  | .serving s activity => cases activity <;> exact h

theorem Reckoned.step (h : u.Reckoned log) (haccounts : u.Accounts j client log)
    (hstep : Machine.step u queue = .next u' queue' sent) :
    u'.Reckoned (log ++ deeds queue queue' sent) := by
  match u with
  | .refused .. => exact haccounts.elim
  | .serving s activity =>
      have hgoes := Serving.step_spec haccounts.fits haccounts.doing queue
      rw [show s.step queue activity = .next u' queue' sent from hstep] at hgoes
      match u' with
      | .opening .. | .refused .. => cases hgoes
      | .serving s' activity' => exact Serving.Reckoned.goes h hgoes
  | .opening config _ _ _ =>
      obtain ⟨rfl, rfl, rfl, rfl⟩ := haccounts
      rw [step_opening] at hstep
      cases hstep
      rw [deeds_same]
      exact ⟨⟨rfl, rfl, rfl, rfl, rfl, rfl, by decide⟩, rfl⟩

/-- The account of an upload that has ended well. -/
structure Tally (file : Bytes) (buffer : Nat) (log : List Deed) (t : Statistics) : Prop where
  reckons : t.Reckons uploadFlags log
  sent : t.packetsSent = 1 + t.dataPackets + t.srejRetransmits + t.timeoutRetransmits +
    sentWith .endOfFile log
  announced : 1 ≤ sentWith .endOfFile log
  dataPackets : t.dataPackets = (file.length + buffer - 1) / buffer
  payloadBytes : t.payloadBytes = file.length
  digest : t.digest = Crc32.ofBytes file

theorem Reckoned.tally {t : Statistics} (h : u.Reckoned log) (haccounts : u.Accounts j client log)
    (hstop : Machine.step u queue = .stop (.ok t)) : Tally j.file j.buffer log t := by
  match u with
  | .refused .. => exact haccounts.elim
  | .opening config _ _ _ =>
      obtain ⟨rfl, rfl, rfl, rfl⟩ := haccounts
      rw [step_opening] at hstop
      cases hstop
  | .serving s activity =>
      have hfits := haccounts.fits
      have hdoing := haccounts.doing
      have hannounced := haccounts.announced
      have hgoes := Serving.step_spec hfits hdoing queue
      rw [show s.step queue activity = .stop (.ok t) from hstop] at hgoes
      cases hgoes with
      | finish =>
          obtain ⟨number, hnumber⟩ := Option.ne_none_iff_exists'.mp hdoing
          have hall : s.window.current - 1 = j.last := by
            rw [(hfits.ended number hnumber).2, Nat.add_sub_cancel]
          have hreckons := Serving.Reckoned.reckons h
          have hgreeted := Serving.Reckoned.greeted h
          constructor
          · exact hreckons.ended _ _ _ _
          · have hsum := hreckons.sum (by decide)
            simp only [uploadFlags, List.map_cons, List.map_nil, List.sum_cons, List.sum_nil, hgreeted,
              ← hreckons.dataPackets, ← hreckons.srejRetransmits, ← hreckons.timeoutRetransmits] at hsum
            show s.statistics.packetsSent = 1 + s.statistics.dataPackets + s.statistics.srejRetransmits +
              s.statistics.timeoutRetransmits + sentWith .endOfFile log
            omega
          · rw [sentWith, Nat.one_le_iff_ne_zero, Nat.ne_zero_iff_zero_lt, List.countP_pos_iff]
            exact ⟨_, mem_sentPackets.mpr (hannounced hdoing), rfl⟩
          · exact hfits.dataPackets.trans hall
          · show s.statistics.payloadBytes = j.file.length
            rw [hfits.payloadBytes, hall, Consignment.upTo_last]
          · show s.crc.digest = Crc32.ofBytes j.file
            rw [hfits.crc, hall, Consignment.upTo_last]
            rfl

/-- Only a file that can be read is sent to its end. -/
theorem Sound.contents {config : Config} {request : FileRequest} {source : Source} {t : Statistics}
    (hcheck : request.check = .ok ())
    (hcount : ∀ file, source = .contents file →
      pieceCount file request.parameters.buffer.toNat ≤ limit32 - 2)
    (h : Sound config request client source u) (hstop : Machine.step u queue = .stop (.ok t)) :
    ∃ file, source = .contents file := by
  cases h with
  | opening =>
      obtain ⟨v, flag, hopened, -⟩ := @step_opening_sound config request client source hcheck
        hcount queue
      cases hopened.symm.trans hstop
  | refused => cases hstop
  | unreadable s hs => cases (hs.step queue).symm.trans hstop
  | serving j => exact ⟨j.file, rfl⟩

end Upload

/-! ## Downloads -/

/-- The packets that a download sends. -/
def downloadFlags : List Flag := [.fname, .ack, .srej, .eofAck]

namespace Session

variable {s s' : Session} {t : Statistics} {p : Packet} {r : Reply}

/-- What is counted and digested is what has been written. -/
structure Summed (s : Session) : Prop where
  written : s.buffer.bytesWritten = s.sink.bytes.length
  crc : s.buffer.crc = Crc32.start.update s.sink.bytes

theorem summed_new {size : Nat} {buffer : ReorderBuffer} (h : ReorderBuffer.make size = .ok buffer) :
    Summed { buffer := buffer } := by
  unfold ReorderBuffer.make SlotRing.forWindow at h
  split at h
  · cases h
    exact ⟨rfl, rfl⟩
  · cases h

theorem Summed.advanced {payload : Bytes} {run : List Bytes} (h : s.Summed)
    (ha : s.Advanced payload run s') : s'.Summed where
  written := by rw [ha.total, h.written, ha.bytes, List.length_append]
  crc := by
    have hcrc : s'.buffer.crc = s.buffer.crc.update run.flatten := ha.wrote.crc
    rw [hcrc, h.crc, ha.bytes, Crc32.update_append]

theorem Outcome.summed (h : s.Summed) (ho : s.Outcome t p r) : r.session.Summed := by
  cases ho with
  | advance _ _ _ _ hmoved | advanceAsking _ _ _ _ hmoved => exact h.advanced hmoved
  | hold => exact ⟨h.written, h.crc⟩
  | old | held | far | finish | early | pass => exact h

/-- The answer to a packet is counted, and only the last of a download is a confirmation. -/
theorem Outcome.counts (ho : s.Outcome t p r) : t.Counts r.packets r.statistics ∧
    (∀ q ∈ r.packets, q.flag ∈ downloadFlags) ∧
    r.packets.countP (·.flag = .eofAck) = if r.complete then 1 else 0 := by
  cases ho <;> exact ⟨⟨rfl, rfl, rfl, rfl, rfl, rfl⟩, by simp [downloadFlags, Packet.control], rfl⟩

end Session

namespace Download

variable {d d' : Download} {queue queue' : List Arrival} {sent : List Packet} {log : List Deed}
  {window : Nat} {r : Reply}

theorem not_finished {stage : Stage} (h : d.stage = stage) (hstage : ∀ s, stage ≠ .complete s) :
    ¬ d.Finished := by
  rintro ⟨s, hs⟩
  exact hstage s (h.symm.trans hs)

/-- Taking a packet is counted, and confirms the end only when it finishes. -/
theorem after_counts {p : Packet} {s : Session} (ho : s.Outcome d.statistics p r) :
    d.statistics.Counts r.packets (d.after r).statistics ∧ (∀ q ∈ r.packets, q.flag ∈ downloadFlags) ∧
      r.packets.countP (·.flag = .eofAck) = if (d.after r).Finished then 1 else 0 := by
  obtain ⟨hcounts, hkinds, hconfirmed⟩ := ho.counts
  refine ⟨hcounts, hkinds, ?_⟩
  rw [hconfirmed]
  simp only [finished_after]

/-- A step counts what it sends, and confirms the end only when it finishes. -/
theorem Moves.counts (h : Moves d queue (.next d' queue' sent)) :
    ¬ d.Finished ∧ d.statistics.Counts sent d'.statistics ∧ (∀ p ∈ sent, p.flag ∈ downloadFlags) ∧
      sent.countP (·.flag = .eofAck) = if d'.Finished then 1 else 0 := by
  have hnot : ∀ {stage : Stage}, d'.stage = stage → (∀ s, stage ≠ .complete s) →
      0 = if d'.Finished then 1 else 0 := fun hstage hother => (if_neg (not_finished hstage hother)).symm
  cases h with
  | ask _ hstage =>
      exact ⟨not_finished hstage nofun, ⟨rfl, rfl, rfl, rfl, rfl, rfl⟩,
        List.forall_mem_singleton.mpr (List.mem_cons_self), hnot rfl nofun⟩
  | beginWait _ hstage | granted _ _ _ hstage | standIn _ _ _ hstage | opened _ _ hstage =>
      exact ⟨not_finished hstage nofun, ⟨rfl, rfl, rfl, rfl, rfl, rfl⟩, nofun, hnot rfl nofun⟩
  | ignoreAnswer _ _ _ hstage _ hnoticed =>
      exact ⟨not_finished hstage nofun, hnoticed.counts, nofun, hnot rfl nofun⟩
  | ignore _ _ _ _ hstage _ hnoticed =>
      exact ⟨not_finished hstage nofun, hnoticed.counts, nofun, hnot hstage nofun⟩
  | openedWith _ _ _ _ hstage _ htakes =>
      exact ⟨not_finished hstage nofun, after_counts htakes⟩
  | take _ _ _ _ _ hstage _ _ htakes =>
      exact ⟨not_finished hstage nofun, after_counts htakes⟩

/-- What is counted and digested is what has been written. -/
theorem Moves.summed (h : Moves d queue (.next d' queue' sent))
    (hsummed : ∀ s, d.session = some s → s.Summed) : ∀ s, d'.session = some s → s.Summed := by
  have hafter : ∀ {s : Session} {p : Packet} {r : Reply}, s.Summed → s.Outcome d.statistics p r →
      ∀ s', (d.after r).session = some s' → s'.Summed := by
    intro s p r hs ho s' hs'
    rw [session_after] at hs'
    cases hs'
    exact ho.summed hs
  cases h with
  | ask | beginWait | ignoreAnswer | granted | standIn => exact nofun
  | opened _ buffer _ hmake =>
      intro s hs
      cases hs
      exact Session.summed_new hmake
  | ignore _ _ _ s hstage => exact hsummed
  | openedWith _ buffer _ _ _ hmake htakes => exact hafter (Session.summed_new hmake) htakes
  | take _ _ _ s _ hstage _ _ htakes => exact hafter (hsummed s (by rw [session, hstage])) htakes

/-- The counters of a download are those of its log, and its sums those of what it has written. -/
structure Reckoned (d : Download) (log : List Deed) : Prop where
  reckons : d.statistics.Reckons downloadFlags log
  confirmed : sentWith .eofAck log = if d.Finished then 1 else 0
  summed : ∀ s, d.session = some s → s.Summed

theorem reckoned_start {config : Config} {fetch : Fetch} {server : Except Error Address}
    (h : start config fetch server = .ok d) : d.Reckoned [] := by
  unfold start at h
  split at h
  · cases h
  · split at h
    · cases h
    · cases server with
      | error e => cases h
      | ok address =>
          cases h
          exact ⟨⟨rfl, rfl, rfl, rfl, rfl, rfl, nofun⟩,
            (if_neg (@not_finished _ .asking rfl nofun)).symm, nofun⟩

/-- A wait that is over neither counts, writes nor confirms anything. -/
theorem expire_same (d : Download) : (Download.expire d).statistics = d.statistics ∧
    ((Download.expire d).Finished ↔ d.Finished) ∧
    ∀ s, (Download.expire d).session = some s → d.session = some s := by
  unfold Download.expire Finished session
  cases hd : d.stage <;> simp [hd]

theorem Reckoned.expire (h : d.Reckoned log) : (Download.expire d).Reckoned log := by
  obtain ⟨hstatistics, hfinished, hsession⟩ := expire_same d
  refine ⟨?_, ?_, fun s hs => h.summed s (hsession s hs)⟩
  · rw [hstatistics]
    exact h.reckons
  · rw [h.confirmed]
    simp only [hfinished]

theorem Reckoned.step (h : d.Reckoned log) (haccounts : d.Accounts window log)
    (hstep : Machine.step d queue = .next d' queue' sent) :
    d'.Reckoned (log ++ deeds queue queue' sent) := by
  have hmoves := step_moves haccounts.tidy queue
  rw [show d.step queue = .next d' queue' sent from hstep] at hmoves
  obtain ⟨hrunning, hcounts, hkinds, hconfirmed⟩ := hmoves.counts
  constructor
  · exact h.reckons.counts hcounts hkinds queue queue'
  · rw [sentWith_append_deeds, h.confirmed, if_neg hrunning, Nat.zero_add, hconfirmed]
  · exact hmoves.summed h.summed

/-- The account of a download that has ended well. -/
structure Tally (file : Bytes) (log : List Deed) (t : Statistics) : Prop where
  reckons : t.Reckons downloadFlags log
  sent : t.packetsSent = sentWith .fname log + t.acksSent + t.srejsSent + 1
  confirmed : sentWith .eofAck log = 1
  payloadBytes : t.payloadBytes = file.length
  digest : t.digest = Crc32.ofBytes file

theorem Reckoned.tally {t : Statistics} (h : d.Reckoned log) (haccounts : d.Accounts window log)
    (hstop : Machine.step d queue = .stop (.ok t)) : ∃ file, d.file = some file ∧ Tally file log t := by
  have hmoves := step_moves haccounts.tidy queue
  rw [show d.step queue = .stop (.ok t) from hstop] at hmoves
  cases hmoves with
  | finish _ s hstage =>
      have hsession : d.session = some s := by rw [session, hstage]
      have hsummed := h.summed s hsession
      have hreckons := h.reckons
      have hconfirmed := h.confirmed
      rw [if_pos ⟨s, hstage⟩] at hconfirmed
      refine ⟨s.sink.bytes, file_of_session hsession, ?_, ?_, hconfirmed, hsummed.written, ?_⟩
      · exact hreckons.ended _ _ _ _
      · have hsum := hreckons.sum (by decide)
        simp only [downloadFlags, List.map_cons, List.map_nil, List.sum_cons, List.sum_nil, hconfirmed,
          ← hreckons.acksSent, ← hreckons.srejsSent] at hsum
        show d.statistics.packetsSent = sentWith .fname log + d.statistics.acksSent +
          d.statistics.srejsSent + 1
        omega
      · show s.buffer.crc.digest = Crc32.ofBytes s.sink.bytes
        rw [hsummed.crc]
        rfl

end Download

namespace Scenario

open Encounter

variable {link : Link} {faults : FaultModel} {incidents : List Incident} {t : Statistics}

theorem upload_reckoned {payload : Bytes} {request : FileRequest}
    (hrequest : FileRequest.ofPayload payload = .ok request) {file : Bytes}
    (hcount : pieceCount file request.parameters.buffer.toNat ≤ limit32 - 2) {config : Config}
    {client : Address} {e : Encounter Upload}
    (h : Reaches link (start (.start config request client (.contents file)) faults) e)
    (hresult : e.station.result = some (.ok t)) :
    Upload.Tally file request.parameters.buffer.toNat e.log t := by
  obtain ⟨⟨haccounts, hreckoned⟩, hover⟩ := upholds
    (fun u log => u.Accounts (.ofPayload hrequest file hcount) client log ∧ u.Reckoned log)
    ⟨⟨rfl, rfl, rfl, rfl⟩, trivial⟩ (fun _ _ h => ⟨h.1.expire, h.2.expire⟩)
    (fun _ _ _ _ _ _ h hstep => ⟨h.1.step hstep, h.2.step h.1 hstep⟩) h
  obtain ⟨queue, last, hstop, rfl⟩ := (hover _ hresult).ok
  have htally := hreckoned.tally haccounts hstop
  exact ⟨htally.reckons.ended _ _ _ _, htally.sent, htally.announced, htally.dataPackets,
    htally.payloadBytes, htally.digest⟩

theorem upload_contents {payload : Bytes} {request : FileRequest}
    (hrequest : FileRequest.ofPayload payload = .ok request) {source : Source}
    (hcount : ∀ file, source = .contents file →
      pieceCount file request.parameters.buffer.toNat ≤ limit32 - 2) {config : Config}
    {client : Address} {e : Encounter Upload}
    (h : Reaches link (start (.start config request client source) faults) e)
    (hresult : e.station.result = some (.ok t)) : ∃ file, source = .contents file := by
  have hcheck := FileRequest.check_of_ofPayload hrequest
  obtain ⟨hsound, hover⟩ := upholds (fun u _ => Upload.Sound config request client source u)
    (.opening source) (fun _ _ h => h.expire)
    (fun _ _ _ _ _ _ h hstep => (h.step hcheck hcount hstep).1) h
  obtain ⟨queue, last, hstop, -⟩ := (hover _ hresult).ok
  exact hsound.contents hcheck hcount hstop

theorem download_reckoned {config : Config} {fetch : Fetch} {server : Except Error Address}
    {d : Download} (hstart : Download.start config fetch server = .ok d) {e : Encounter Download}
    (h : Reaches link (start d faults) e) (hresult : e.station.result = some (.ok t)) :
    ∃ file, e.station.machine.file = some file ∧ Download.Tally file e.log t := by
  obtain ⟨⟨haccounts, hreckoned⟩, hover⟩ := upholds
    (fun d log => d.Accounts fetch.parameters.window.toNat log ∧ d.Reckoned log)
    ⟨Download.accounts_start hstart, Download.reckoned_start hstart⟩
    (fun _ _ h => ⟨h.1.expire, h.2.expire⟩)
    (fun _ _ _ _ _ _ h hstep => ⟨h.1.step hstep, h.2.step h.1 hstep⟩) h
  obtain ⟨queue, last, hstop, rfl⟩ := (hover _ hresult).ok
  obtain ⟨file, hfile, htally⟩ := hreckoned.tally haccounts hstop
  exact ⟨file, hfile, htally.reckons.ended _ _ _ _, htally.sent, htally.confirmed, htally.payloadBytes,
    htally.digest⟩

/-- **The statistics of a machine that has ended well account for every packet.** -/
theorem statistics_exact (link : Link) (faults : FaultModel) (incidents : List Incident) :
    (∀ payload request config client source,
      FileRequest.ofPayload payload = .ok request →
      (∀ file, source = .contents file → pieceCount file request.parameters.buffer.toNat ≤ limit32 - 2) →
      ∀ e t, (start (Upload.start config request client source) faults).run link incidents = some e →
      e.station.result = some (.ok t) →
      t.packetsSent = ((start (Upload.start config request client source) faults).departures
        link incidents).length + t.injectedDrops ∧
      ∃ file, source = .contents file ∧
        Upload.Tally file request.parameters.buffer.toNat e.log t) ∧
    ∀ config fetch server d, Download.start config fetch server = .ok d →
      ∀ e t, (start d faults).run link incidents = some e → e.station.result = some (.ok t) →
      t.packetsSent = ((start d faults).departures link incidents).length + t.injectedDrops ∧
      ∃ file, e.station.machine.file = some file ∧ Download.Tally file e.log t := by
  constructor
  · intro payload request config client source hrequest hcount e t hrun hresult
    have hreach := reaches_of_run .refl hrun
    obtain ⟨file, rfl⟩ := upload_contents hrequest hcount hreach hresult
    have htally := upload_reckoned hrequest (hcount file rfl) hreach hresult
    refine ⟨?_, file, rfl, htally⟩
    rw [htally.reckons.packetsSent, sent_left hrun hresult]
  · intro config fetch server d hstart e t hrun hresult
    obtain ⟨file, hfile, htally⟩ := download_reckoned hstart (reaches_of_run .refl hrun) hresult
    refine ⟨?_, file, hfile, htally⟩
    rw [htally.reckons.packetsSent, sent_left hrun hresult]

/-- The letter is about to be sent over a channel that keeps back most of what it is given. -/
def lossyLetter : Encounter Upload :=
  start (.start {} letterRequest ⟨"client", 0⟩ (.contents (List.replicate 900 65))) (.make 0.5 (some 1))

/-- Of the packets that are sent, two of seven leave, and three of six when the letter is received. -/
theorem letter_reckoned :
    (∃ e t, lossyLetter.run .up letterIncidents = some e ∧ e.station.result = some (.ok t) ∧
      t.packetsSent = 7 ∧ t.injectedDrops = 5 ∧ t.srejRetransmits = 1 ∧ t.timeoutRetransmits = 1 ∧
      (lossyLetter.departures .up letterIncidents).length = 2 ∧
      Upload.Tally (List.replicate 900 65) 400 e.log t) ∧
    ∃ d e t, Download.start {} letterFetch (.ok ⟨"server", 0⟩) = .ok d ∧
      (start d (.make 0.5 (some 1))).run .up letterArrivals = some e ∧
      e.station.result = some (.ok t) ∧
      t.packetsSent = 6 ∧ t.injectedDrops = 3 ∧ t.acksSent = 2 ∧ t.srejsSent = 2 ∧
      ((start d (.make 0.5 (some 1))).departures .up letterArrivals).length = 3 ∧
      Download.Tally [10, 20, 30, 40] e.log t := by
  constructor
  · have hends : (lossyLetter.run .up letterIncidents).any (fun e => e.station.result.any fun result =>
        result.toOption.any fun t => decide (t.packetsSent = 7 ∧ t.injectedDrops = 5 ∧
          t.srejRetransmits = 1 ∧ t.timeoutRetransmits = 1)) = true := by
      decide +kernel
    obtain ⟨e, hrun, hgood⟩ := (Option.any_eq_true _ _).mp hends
    obtain ⟨result, hresult, hgood⟩ := (Option.any_eq_true _ _).mp hgood
    cases result with
    | error stop => cases hgood
    | ok t =>
        obtain ⟨hsent, hdrops, hsrej, htimeout⟩ := of_decide_eq_true hgood
        have hcount : ∀ file, Source.contents (List.replicate 900 65) = .contents file →
            pieceCount file letterRequest.parameters.buffer.toNat ≤ limit32 - 2 := by
          rintro file ⟨⟩
          decide +kernel
        obtain ⟨hleft, file, hfile, htally⟩ := (statistics_exact _ _ _).1 letterRequest.toPayload
          letterRequest _ _ _ (FileRequest.ofPayload_toPayload rfl) hcount e t hrun hresult
        cases hfile
        change _ = (lossyLetter.departures .up letterIncidents).length + _ at hleft
        exact ⟨e, t, hrun, hresult, hsent, hdrops, hsrej, htimeout, by omega, htally⟩
  · obtain ⟨d, hstart⟩ : ∃ d, Download.start {} letterFetch (.ok ⟨"server", 0⟩) = .ok d := ⟨_, rfl⟩
    have hends : ((start d (.make 0.5 (some 1))).run .up letterArrivals).any (fun e =>
        decide (e.station.machine.file = some [10, 20, 30, 40]) && e.station.result.any fun result =>
          result.toOption.any fun t => decide (t.packetsSent = 6 ∧ t.injectedDrops = 3 ∧
            t.acksSent = 2 ∧ t.srejsSent = 2)) = true := by
      cases hstart
      decide +kernel
    obtain ⟨e, hrun, hgood⟩ := (Option.any_eq_true _ _).mp hends
    rw [Bool.and_eq_true] at hgood
    obtain ⟨result, hresult, hcounts⟩ := (Option.any_eq_true _ _).mp hgood.2
    cases result with
    | error stop => cases hcounts
    | ok t =>
        obtain ⟨hsent, hdrops, hacks, hsrejs⟩ := of_decide_eq_true hcounts
        obtain ⟨hleft, file, hfile, htally⟩ := (statistics_exact _ _ _).2 _ _ _ d hstart e t hrun hresult
        cases (of_decide_eq_true hgood.1).symm.trans hfile
        exact ⟨d, e, t, hstart, hrun, hresult, hsent, hdrops, hacks, hsrejs, by omega, htally⟩

end Scenario

end SelectiveReject
