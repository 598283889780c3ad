import SelectiveReject.Proofs.Intake
import SelectiveReject.Proofs.Sinks

/-!
# How a download ends

A server, and anybody else, may send whatever bytes they like with whatever numbers, and may keep silent.
As long as the number behind the last packet that may be held still fits its word, no counter leaves its
word, no packet is refused, and a download ends in one of these ways:

```
no answer          peerSilent
fnameBad           fileNotFound
answered           ok, receiveTimeout, or an error of the file on this side
```

These are the endings with any file on this side; one that cannot be written ends the download as well.
-/

namespace SelectiveReject

open Scenario

/-! ## How much has been committed -/

namespace Intake

variable {window : Nat} {i : Intake}

theorem takeWhile_range'_le {f g : Nat → Bool} (hfg : ∀ s, f s = true → g s = true) (n : Nat) :
    ∀ m a, n ≤ m →
      ((List.range' a n).takeWhile f).length ≤ ((List.range' a m).takeWhile g).length := by
  induction n with
  | zero =>
      intro m a _
      exact Nat.zero_le _
  | succ n ih =>
      intro m a hle
      obtain ⟨k, rfl⟩ : ∃ k, m = k + 1 := ⟨m - 1, by omega⟩
      simp only [List.range'_succ, List.takeWhile_cons]
      cases hf : f a with
      | false => exact Nat.zero_le _
      | true =>
          rw [hfg a hf, if_pos rfl, if_pos rfl]
          exact Nat.succ_le_succ (ih k (a + 1) (by omega))

/-- No piece is lost. -/
theorem run_le_take (window : Nat) (i : Intake) (p : Packet) : i.run ≤ (i.take window p).run := by
  unfold take
  split
  · rename_i hnew
    refine takeWhile_range'_le (fun s hs => ?_) _ _ _ (by simp)
    rw [find_append hnew.2.2.2]
    split
    · rfl
    · exact hs
  · exact Nat.le_refl _

/-- There are no more pieces in a row than there are pieces. -/
theorem run_le_length (i : Intake) : i.run ≤ i.pieces.length := by
  have hsub := (List.takeWhile_sublist (l := List.range' 1 i.pieces.length)
    fun seq => (i.find seq).isSome).length_le
  rw [List.length_range'] at hsub
  exact hsub

/-- How many pieces have been committed, with those that the next datagram brings. -/
def committed (window : Nat) (log : List Deed) (queue : List Arrival) : Nat :=
  ((of window (log ++ (queue.take 1).map .read)).map run).getD 0

end Intake

namespace Session

variable {window : Nat} {s : Session} {i : Intake} {p : Packet}

/-- A buffer that holds what its intake says has room when the number behind its window is one. -/
theorem Holds.roomy (h : s.Holds window i) (hword : i.run + 1 + window < limit32) : s.buffer.Roomy where
  counted := h.tidy.counted
  word := by
    have hrun : i.run + 1 = s.buffer.next := h.run_eq
    rw [h.size, ← hrun]
    exact hword

/-- No packet is refused as long as the number behind the window is one, also when the packet has been
written. -/
theorem Holds.not_refuses (h : s.Holds window i) (hword : (i.take window p).run + 1 + window < limit32) :
    ¬ s.Refuses p := by
  have hgrows := i.run_le_take window p
  rintro (hfull | ⟨run, s', hdata, hseq, hmoved, hfull⟩)
  · exact hfull (h.roomy (by omega))
  · exact hfull ((h.advanced hdata hseq hmoved).roomy hword)

/-- The packet to be written next can always be held. -/
theorem Holds.add_next (h : s.Holds window i) (hword : i.run + 1 + window < limit32) (data : Bytes) :
    s.buffer.add data s.next = (.ok .stored, s.buffer.store data s.next) := by
  have hpos := s.buffer.size_pos
  have hnext : s.buffer.next = s.next := rfl
  rcases ReorderBuffer.add_cases data (Nat.le_refl s.next) with ⟨a, b', -, hnot⟩ | hadd
  · exact absurd (h.roomy hword) hnot
  · rw [hadd, if_neg (by omega), h.tidy.flushed, if_neg (by simp)]

end Session

/-- Every answer to a packet is a packet without payload. -/
theorem Session.Outcome.bare {s : Session} {t : Statistics} {p : Packet} {r : Reply}
    (ho : s.Outcome t p r) : ∀ q ∈ r.packets, q.payload = [] := by
  intro q hq
  cases ho with
  | pass => cases hq
  | advanceAsking =>
      rcases List.mem_cons.mp hq with rfl | hq
      · rfl
      · rw [List.mem_singleton.mp hq]
        rfl
  | old | advance | hold | held | far | finish | early =>
      rw [List.mem_singleton.mp hq]
      rfl

namespace Download

/-- The ways in which a download ends. -/
inductive Ends (config : Config) (fetch : Fetch) : Except Stop Statistics → Prop
  | done (t : Statistics) : Ends config fetch (.ok t)
  | missing : Ends config fetch (.error (.error (.fileNotFound fetch.name)))
  | silent : Ends config fetch (.error (.error (.peerSilent config.maxTries)))
  | stalled : Ends config fetch (.error (.error (.receiveTimeout (config.longTimeout / 1000))))
  | uncreatable (h : fetch.creatable = false) : Ends config fetch (.error (.error uncreatableError))

/-- The download does what it was started for, and its waits stay within their limit. -/
structure Regular (config : Config) (fetch : Fetch) (d : Download) : Prop where
  config_eq : d.config = config
  fetch_eq : d.fetch = fetch
  request_eq : d.request = ⟨fetch.parameters, fetch.name⟩
  retry : d.retry.Within config.maxTries

/-- The packet that a download takes next, and the session that takes it. -/
inductive Takes (d : Download) : List Arrival → Session → Packet → Prop
  /-- The packet has just come. -/
  | next (x : Arrival) (queue : List Arrival) (s : Session) (p : Packet)
      (hstage : d.stage = .receiving s) (hsource : x.source = d.peer) (hp : x.packet = .ok p) :
      Takes d (x :: queue) s p
  /-- The packet stood for the answer of the server. -/
  | first (queue : List Arrival) (buffer : ReorderBuffer) (p : Packet)
      (hstage : d.stage = .answered (some p))
      (hmake : ReorderBuffer.make d.request.parameters.window.toNat = .ok buffer) :
      Takes d queue { buffer := buffer } p

variable {config : Config} {fetch : Fetch} {d d' : Download} {window : Nat} {log : List Deed}
  {queue queue' : List Arrival} {sent : List Packet} {s : Session} {p : Packet}

theorem Takes.append (h : d.Takes queue s p) (more : List Arrival) :
    d.Takes (queue ++ more) s p := by
  cases h with
  | next x queue s p hstage hsource hp => exact .next x _ s p hstage hsource hp
  | first queue buffer p hstage hmake => exact .first _ buffer p hstage hmake

/-- A session that takes a packet holds what its intake says, and the number behind its window is one
as long as few enough pieces have been committed. -/
theorem Takes.holds (h : d.Accounts window log) (hwindow : window ≤ Parameters.maxWindow)
    (hcommitted : Intake.committed window log queue + 1 + window < limit32) (ht : d.Takes queue s p) :
    ∃ i, s.Holds window i ∧ (i.take window p).run + 1 + window < limit32 := by
  cases ht with
  | next x queue s p hstage hsource hp =>
      obtain ⟨i, hof, hpeer, hholds⟩ := h.of_session (s := s) (by rw [session, hstage])
      refine ⟨i, hholds, ?_⟩
      have hread : Intake.committed window log (x :: queue) = (i.take window p).run := by
        simp only [Intake.committed, List.take_succ_cons, List.take_zero, List.map_cons, List.map_nil,
          Intake.of_read, hof, Intake.note_peer hp (hsource.trans hpeer.symm), Option.map_some,
          Option.getD_some]
      rw [← hread]
      exact hcommitted
  | first queue buffer p hstage hmake =>
      rw [h.window_eq] at hmake
      refine ⟨⟨d.peer, []⟩, Session.holds_new hmake d.peer, ?_⟩
      -- at most one piece is there
      have hone : (Intake.take window ⟨d.peer, []⟩ p).pieces.length ≤ 1 := by
        unfold Intake.take
        split
        · exact Nat.le_refl 1
        · exact Nat.zero_le 1
      have hrun := Intake.run_le_length (Intake.take window ⟨d.peer, []⟩ p)
      simp only [Parameters.maxWindow, limit32] at *
      omega

theorem Regular.step (h : d.Regular config fetch) (haccounts : d.Accounts window log)
    (hcheck : FileRequest.check ⟨fetch.parameters, fetch.name⟩ = .ok ())
    (hstep : Machine.step d queue = .next d' queue' sent) :
    d'.Regular config fetch ∧ ∀ p ∈ sent, p.payload.length ≤ Packet.maxPayload := by
  have hmoves := step_moves haccounts.tidy queue
  rw [show d.step queue = .next d' queue' sent from hstep] at hmoves
  have hbare : ∀ {ps : List Packet}, (∀ q ∈ ps, q.payload = []) →
      ∀ q ∈ ps, q.payload.length ≤ Packet.maxPayload := by
    intro ps hps q hq
    rw [hps q hq]
    exact Nat.zero_le _
  have hnone : ∀ p ∈ ([] : List Packet), p.payload.length ≤ Packet.maxPayload := nofun
  cases hmoves with
  | ask =>
      refine ⟨⟨h.config_eq, h.fetch_eq, h.request_eq, h.retry⟩, fun p hp => ?_⟩
      rw [List.mem_singleton.mp hp, h.request_eq]
      exact FileRequest.length_toPayload hcheck
  | beginWait _ _ hpatient =>
      exact ⟨⟨h.config_eq, h.fetch_eq, h.request_eq, h.retry.rest hpatient⟩, hnone⟩
  | ignoreAnswer | granted | standIn =>
      exact ⟨⟨h.config_eq, h.fetch_eq, h.request_eq, h.retry.reset⟩, hnone⟩
  | opened | ignore => exact ⟨⟨h.config_eq, h.fetch_eq, h.request_eq, h.retry⟩, hnone⟩
  | openedWith _ _ _ _ _ _ htakes | take _ _ _ _ _ _ _ _ htakes =>
      exact ⟨⟨h.config_eq, h.fetch_eq, h.request_eq, h.retry⟩, hbare htakes.bare⟩

theorem Regular.expire (h : d.Regular config fetch) : (Download.expire d).Regular config fetch := by
  unfold Download.expire
  split <;> exact ⟨h.config_eq, h.fetch_eq, h.request_eq, h.retry⟩

/-- The buffer of a request that has been checked can be made. -/
theorem Regular.buffer_made (h : d.Regular config fetch)
    (hcheck : FileRequest.check ⟨fetch.parameters, fetch.name⟩ = .ok ()) (e : Error) :
    ReorderBuffer.make d.request.parameters.window.toNat ≠ .error e := by
  obtain ⟨hpos, hle, -, -⟩ :=
    (Parameters.check_eq_ok_iff _).mp (FileRequest.parameters_of_check hcheck)
  rw [h.request_eq, ReorderBuffer.make_eq hpos hle]
  exact nofun

/-- A download ends in one of its ways, or is aborted because it refuses the packet that it takes. -/
theorem Regular.stop (h : d.Regular config fetch) (haccounts : d.Accounts window log)
    (hcheck : FileRequest.check ⟨fetch.parameters, fetch.name⟩ = .ok ())
    (hlimit : config.maxTries + 1 < limit32) {result : Except Stop Statistics}
    (hstop : Machine.step d queue = .stop result) :
    Ends config fetch result ∨
      ∃ s p a, d.Takes queue s p ∧ s.Refuses p ∧ result = .error (.abort a) := by
  have hmoves := step_moves haccounts.tidy queue
  rw [show d.step queue = .stop result from hstop] at hmoves
  cases hmoves with
  | giveUp _ e hstage hpatient =>
      have hgone : d.step queue = .fail (.peerSilent config.maxTries) := by
        unfold Download.step
        rw [hstage]
        simp only [Download.beginWait, h.retry.giveUp hlimit hpatient, h.retry.maxTries]
      cases hgone.symm.trans hstop
      exact Or.inl .silent
  | refused =>
      rw [h.fetch_eq]
      exact Or.inl .missing
  | uncreatable _ _ _ hfetch =>
      rw [h.fetch_eq] at hfetch
      exact Or.inl (.uncreatable hfetch)
  | unbuffered _ _ e _ hmake => exact absurd hmake (h.buffer_made hcheck e)
  | openedBroken _ buffer p a hstage hmake hrefuses =>
      exact Or.inr ⟨_, p, a, .first _ buffer p hstage hmake, hrefuses, rfl⟩
  | broken x _ p s a hstage hsource hp hrefuses =>
      exact Or.inr ⟨s, p, a, .next x _ s p hstage hsource hp, hrefuses, rfl⟩
  | silent =>
      rw [h.config_eq]
      exact Or.inl .stalled
  | finish => exact Or.inl (.done _)

/-- A download that starts has had its settings and its request checked. -/
theorem regular_start {server : Except Error Address} (h : start config fetch server = .ok d) :
    config.check = .ok () ∧ FileRequest.check ⟨fetch.parameters, fetch.name⟩ = .ok () ∧
      d.Regular config fetch := by
  unfold start at h
  split at h
  · cases h
  · rename_i hconfig
    split at h
    · cases h
    · rename_i request hmake
      obtain ⟨rfl, hcheck⟩ := FileRequest.make_eq_ok hmake
      cases server with
      | error e => cases h
      | ok address =>
          cases h
          exact ⟨hconfig, hcheck, rfl, rfl, rfl, rfl, Nat.zero_le _⟩

/-- A download that has not moved yet. -/
theorem start_eq {server : Address} (h : start config fetch (.ok server) = .ok d) :
    d = {
      config := config
      fetch := fetch
      request := ⟨fetch.parameters, fetch.name⟩
      server := server
      peer := server
      retry := ⟨0, config.maxTries⟩ } := by
  unfold start at h
  split at h
  · cases h
  · split at h
    · cases h
    · rename_i request hmake
      obtain ⟨rfl, -⟩ := FileRequest.make_eq_ok hmake
      cases h
      rfl

/-- A download begins to ask. -/
theorem fresh_of_start {server : Except Error Address} (h : start config fetch server = .ok d) :
    d.stage = .asking ∧ d.retry.count = 0 := by
  cases server with
  | ok address =>
      cases start_eq h
      exact ⟨rfl, rfl⟩
  | error e =>
      unfold start at h
      split at h
      · cases h
      · split at h <;> cases h

end Download

namespace Scenario.Encounter

/-- So many pieces have been committed that the number behind the window has left its word. -/
def Overrun (window : Nat) (e : Encounter Download) : Prop :=
  limit32 - 2 - window < Intake.committed window e.log e.station.queue

/-- What holds of a download whatever arrives. -/
structure Unbroken (config : Config) (fetch : Fetch) (link : Link) (e : Encounter Download) : Prop where
  /-- Unless the link refuses its peer, it ends only in its ways, up to an overrun. -/
  ends : ∀ result, e.station.result = some result →
    Download.Ends config fetch result ∨
      (∃ stop, link.Refuses (Machine.peer e.station.machine) stop ∧ result = .error stop) ∨
      e.Overrun fetch.parameters.window.toNat ∧ ∃ a, result = .error (.abort a)
  /-- The packet that is to be written next can be held. -/
  stores : ¬ e.Overrun fetch.parameters.window.toNat →
    ∀ s p, e.station.machine.Takes e.station.queue s p → p.seq = s.next →
      s.buffer.add p.payload p.seq = (.ok .stored, s.buffer.store p.payload p.seq)
  /-- Every packet is taken, and with any other file on this side it is taken in the same way, or that
  file cannot be written. -/
  takes : ¬ e.Overrun fetch.parameters.window.toNat →
    ∀ s p, e.station.machine.Takes e.station.queue s p → ∀ t, ∃ r, s.take t p = .ok r ∧
      ∀ sink, (∃ sink', (s.into sink).take t p = .ok (r.into sink')) ∨
        (s.into sink).take t p = .error (.error ReorderBuffer.sinkFull)

/-- **Nothing that arrives can break a download, as long as its numbers fit their word.** -/
theorem download_unbroken {config : Config} {fetch : Fetch} {server : Except Error Address}
    {d : Download} (hstart : Download.start config fetch server = .ok d)
    (htries : config.maxTries < limit32 - 1) {faults : FaultModel} (hfaults : faults.rate = config.rate)
    {link : Link} {e : Encounter Download} (h : Reaches link (start d faults) e) :
    e.Unbroken config fetch link := by
  obtain ⟨hconfig, hcheck, hregular⟩ := Download.regular_start hstart
  obtain ⟨-, hwindow, -, -⟩ :=
    (Parameters.check_eq_ok_iff _).mp (FileRequest.parameters_of_check hcheck)
  have hlimit : config.maxTries + 1 < limit32 := by omega
  obtain ⟨⟨haccounts, hregular⟩, hclosed⟩ := withstands
    (fun d log => d.Accounts fetch.parameters.window.toNat log ∧ d.Regular config fetch)
    (FaultModel.proper_of_check hconfig hfaults) ⟨Download.accounts_start hstart, hregular⟩
    (fun _ _ h => ⟨h.1.expire, h.2.expire⟩)
    (fun _ _ _ _ _ _ h hstep => ⟨h.1.step hstep, (h.2.step h.1 hcheck hstep).1⟩)
    (fun _ _ _ _ _ _ h hstep => (h.2.step h.1 hcheck hstep).2) h
  -- the intake of a session that takes a packet leaves room, also behind that packet
  have hroom : ¬ e.Overrun fetch.parameters.window.toNat →
      ∀ s p, e.station.machine.Takes e.station.queue s p →
        ∃ i, s.Holds fetch.parameters.window.toNat i ∧
          (i.take fetch.parameters.window.toNat p).run + 1 + fetch.parameters.window.toNat < limit32 := by
    intro hfew s p htakes
    refine htakes.holds haccounts hwindow ?_
    simp only [Overrun, limit32] at *
    omega
  refine ⟨fun result hresult => ?_, fun hfew s p htakes hseq => ?_, fun hfew s p htakes t => ?_⟩
  · rcases hclosed result hresult with ⟨queue, more, last, hqueue, hstop, hlast⟩ | hrefused
    · rcases hregular.stop haccounts hcheck hlimit hstop with
        hends | ⟨s, p, a, htakes, hrefuses, rfl⟩
      · left
        cases hlast
        cases hends with
        | done t => exact .done _
        | missing => exact .missing
        | silent => exact .silent
        | stalled => exact .stalled
        | uncreatable hfetch => exact .uncreatable hfetch
      · right
        right
        cases hlast
        refine ⟨Classical.byContradiction fun hfew => ?_, a, rfl⟩
        obtain ⟨i, hi, hword⟩ := hroom hfew s p (hqueue ▸ htakes.append more)
        exact hi.not_refuses hword hrefuses
    · exact Or.inr (Or.inl hrefused)
  · obtain ⟨i, hi, hword⟩ := hroom hfew s p htakes
    have hgrows := i.run_le_take fetch.parameters.window.toNat p
    rw [hseq]
    exact hi.add_next (by omega) p.payload
  · obtain ⟨i, hi, hword⟩ := hroom hfew s p htakes
    rcases Session.take_cases hi.tidy t p with ⟨a, -, hrefuses⟩ | ⟨r, hr, -⟩
    · exact absurd hrefuses (hi.not_refuses hword)
    · exact ⟨r, hr, Session.take_into hr⟩

/-- Some bytes are no packet, a piece with the greatest number stands for the answer, and others have
numbers that nobody has asked for; one piece is right.  Then nothing comes. -/
def hostileArrivals : List Incident :=
  let mail (source : String) (bytes : Bytes) : List Incident := [.arrival ⟨⟨source, 0⟩, bytes⟩, .step]
  let last := limit32 - 1
  [.step, .step] ++ mail "stranger" [1, 2, 3] ++ [.step] ++
    mail "transfer" (Packet.frame ⟨UInt32.ofNat last, .data, [50]⟩) ++ [.step] ++
    mail "transfer" (Packet.frame ⟨0, .data, [60]⟩) ++
    mail "transfer" (Packet.control .endOfFile last).frame ++
    mail "transfer" (Packet.frame ⟨1, .data, [10, 20]⟩) ++
    mail "transfer" (Packet.control .endOfFile 0).frame ++
    mail "stranger" (Packet.control .endOfFile 2).frame ++ [.timer, .step]

/-- The download ends because nothing has come for too long, with the piece that was right. -/
theorem hostile_stalled : ∃ (d : Download) (e : Encounter Download),
    Download.start {} letterFetch (.ok ⟨"server", 0⟩) = .ok d ∧
    e.station.result = some (.error (.error (.receiveTimeout 10))) ∧
    e.station.machine.file = some [10, 20] ∧ e.Unbroken {} letterFetch .up := by
  obtain ⟨d, hstart⟩ : ∃ d, Download.start {} letterFetch (.ok ⟨"server", 0⟩) = .ok d := ⟨_, rfl⟩
  have hends : ((start d (.ofConfig {})).run .up hostileArrivals).any
      (fun e => decide (e.station.machine.file = some [10, 20]) && e.station.result.any fun
        | .ok _ => false
        | .error stop => decide (stop = .error (.receiveTimeout 10))) = true := by
    cases hstart
    decide +kernel
  obtain ⟨e, hrun, hgood⟩ := (Option.any_eq_true _ _).mp hends
  rw [Bool.and_eq_true] at hgood
  obtain ⟨result, hresult, hstalled⟩ := (Option.any_eq_true _ _).mp hgood.2
  have hunbroken := download_unbroken hstart (by decide)
    (show (FaultModel.ofConfig {}).rate = Config.rate {} from rfl) (reaches_of_run .refl hrun)
  cases result with
  | ok t => cases hstalled
  | error stop =>
      rw [of_decide_eq_true hstalled] at hresult
      exact ⟨d, e, hstart, hresult, of_decide_eq_true hgood.1, hunbroken⟩

end Scenario.Encounter

end SelectiveReject
