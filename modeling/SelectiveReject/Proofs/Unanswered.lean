import SelectiveReject.Proofs.DownloadEndings

/-!
# A request that is not answered

The file on this side is created when the server has answered, or when a packet has come that stands for
its answer.  Before that, whatever else arrives and however often the request is sent again, the place of
the file holds what it held:

```
asking, asked, handshake                    the place is as it was
answered, receiving, silent, complete       a datagram that answers was taken in the handshake
```

A request that is refused, that finds nobody, or that is not even sent ends in the first row.
-/

namespace SelectiveReject

open Scenario

/-- The datagram answers the request, or stands for the answer. -/
def Arrival.Answers (x : Arrival) : Prop := ∃ p, x.packet = .ok p ∧ p.Opens

/-- What goes wrong before there is an answer. -/
def Error.Early : Error → Prop
  | .invalidRate _ | .invalidWindow _ | .invalidBuffer _ | .invalidName _ | .unresolvedHost _
  | .peerSilent _ | .fileNotFound _ => True
  | _ => False

/-- The server has answered. -/
def Stage.Answered : Stage → Prop
  | .asking | .asked | .handshake => False
  | .answered _ | .receiving _ | .silent _ | .complete _ => True

namespace Download

def Answered (d : Download) : Prop := d.stage.Answered

/-- The datagram that a step takes in the handshake. -/
def heeds (d : Download) (queue : List Arrival) : List Arrival :=
  match d.stage with
  | .handshake => queue.take 1
  | _ => []

variable {config : Config} {fetch : Fetch} {d d' : Download} {window : Nat} {log : List Deed}
  {queue queue' : List Arrival} {sent : List Packet} {x : Arrival} {e : Error}

theorem answered_of_stage {stage : Stage} (hd : d.stage = stage) (h : stage.Answered) : d.Answered := by
  rwa [Answered, hd]

theorem file_of_not_answered (h : ¬ d.Answered) : d.file = d.fetch.before := by
  unfold file
  cases hd : d.stage with
  | asking | asked | handshake | answered => rfl
  | receiving | silent | complete => exact absurd (answered_of_stage hd trivial) h

theorem answered_after (d : Download) (r : Reply) : (d.after r).Answered := by
  unfold Answered after
  cases r.complete <;> exact trivial

theorem answered_expire : (Download.expire d).Answered ↔ d.Answered := by
  unfold Download.expire
  cases hd : d.stage <;> simp only [Answered, Stage.Answered, hd]

theorem heeds_of_handshake (hd : d.stage = .handshake) : d.heeds (x :: queue) = [x] := by
  rw [heeds, hd]
  rfl

/-- A download is answered by a datagram that it takes in the handshake. -/
theorem Accounts.answered_step (h : d.Accounts window log)
    (hstep : Machine.step d queue = .next d' queue' sent) :
    d'.Answered ↔ d.Answered ∨ ∃ x ∈ d.heeds queue, x.Answers := by
  have hmoves := step_moves h.tidy queue
  rw [show d.step queue = .next d' queue' sent from hstep] at hmoves
  cases hmoves with
  | ask _ hd | beginWait _ hd => simp [Answered, Stage.Answered, heeds, hd]
  | ignoreAnswer x _ t hd hother =>
      have hnot : ¬ x.Answers := fun ⟨p, hp, hopens⟩ => (hother p hp).not_opens hopens
      simp [Answered, Stage.Answered, heeds_of_handshake hd, hd, hnot]
  | granted x _ p hd hp hflag =>
      have hanswers : x.Answers := ⟨p, hp, Or.inl hflag⟩
      exact iff_of_true trivial (Or.inr ⟨x, by simp [heeds_of_handshake hd], hanswers⟩)
  | standIn x _ p hd hp hflag =>
      have hanswers : x.Answers := ⟨p, hp, Or.inr hflag⟩
      exact iff_of_true trivial (Or.inr ⟨x, by simp [heeds_of_handshake hd], hanswers⟩)
  | opened _ buffer hd => exact iff_of_true trivial (Or.inl (answered_of_stage hd trivial))
  | ignore x _ t s hd =>
      have hanswered := answered_of_stage hd trivial
      exact iff_of_true hanswered (Or.inl hanswered)
  | openedWith _ _ _ r hd | take _ _ _ _ r hd =>
      exact iff_of_true (answered_after d r) (Or.inl (answered_of_stage hd trivial))

/-- No download ends with a datagram that answers. -/
theorem Accounts.stop_heeds (h : d.Accounts window log) {result : Except Stop Statistics}
    (hstop : Machine.step d queue = .stop result) : ¬ ∃ x ∈ d.heeds queue, x.Answers := by
  have hmoves := step_moves h.tidy queue
  rw [show d.step queue = .stop result from hstop] at hmoves
  cases hmoves with
  | refused x _ p hd hp hflag =>
      rw [heeds_of_handshake hd]
      rintro ⟨y, hy, q, hq, hopens⟩
      rw [List.mem_singleton.mp hy, hp] at hq
      cases hq
      simp [Packet.Opens, hflag, Flag.isData] at hopens
  | giveUp _ _ hd | uncreatable _ _ hd | unbuffered _ _ _ hd | openedBroken _ _ _ _ hd
  | broken _ _ _ _ _ hd | silent _ _ hd | finish _ _ hd => simp [heeds, hd]

/-- What goes wrong early goes wrong before there is an answer. -/
theorem Regular.not_answered_of_early (h : d.Regular config fetch) (haccounts : d.Accounts window log)
    (hcheck : FileRequest.check ⟨fetch.parameters, fetch.name⟩ = .ok ()) (hearly : e.Early)
    (hstop : Machine.step d queue = .stop (.error (.error e))) : ¬ d.Answered := by
  have hmoves := step_moves haccounts.tidy queue
  rw [show d.step queue = .stop (.error (.error e)) from hstop] at hmoves
  cases hmoves with
  | giveUp _ _ hd | refused _ _ _ hd =>
      rw [Answered, hd]
      exact id
  | unbuffered _ _ e _ hmake => exact absurd hmake (h.buffer_made hcheck e)
  | uncreatable | silent => exact hearly.elim

end Download

namespace Scenario

namespace Encounter

variable {config : Config} {fetch : Fetch} {server : Except Error Address} {d : Download} {link : Link}
  {faults : FaultModel} {e : Encounter Download} {incidents : List Incident}

/-- The datagram that is taken in an incident in the handshake. -/
def heeding (e : Encounter Download) : Incident → List Arrival
  | .step => e.station.machine.heeds e.station.queue
  | .arrival _ | .timer => []

/-- The datagrams that a download has taken in the handshake. -/
def heeded (link : Link) (e : Encounter Download) (incidents : List Incident) : List Arrival :=
  e.along link heeding incidents

theorem reaches_regular (hstart : Download.start config fetch server = .ok d)
    (h : Reaches link (start d faults) e) :
    (e.station.machine.Accounts fetch.parameters.window.toNat e.log ∧
        e.station.machine.Regular config fetch) ∧
      ∀ result, e.station.result = some result → e.Over result := by
  obtain ⟨-, hcheck, hregular⟩ := Download.regular_start hstart
  exact upholds
    (fun d log => d.Accounts fetch.parameters.window.toNat log ∧ d.Regular config fetch)
    ⟨Download.accounts_start hstart, hregular⟩
    (fun _ _ h => ⟨h.1.expire, h.2.expire⟩)
    (fun _ _ _ _ _ _ h hstep => ⟨h.1.step hstep, (h.2.step h.1 hcheck hstep).1⟩) h

/-- An incident answers a download by the datagram that is taken in it in the handshake. -/
theorem answered_act {window : Nat} {incident : Incident} {next : Encounter Download}
    (h : e.station.machine.Accounts window e.log) (hact : e.act link incident = some next) :
    next.station.machine.Answered ↔
      e.station.machine.Answered ∨ ∃ x ∈ e.heeding incident, x.Answers := by
  cases incident with
  | arrival datagram =>
      cases hact
      simp [heeding, Station.enqueue]
  | timer =>
      obtain ⟨-, rfl⟩ := act_timer hact
      have hexpire : (Machine.expire e.station.machine).Answered ↔ e.station.machine.Answered :=
        Download.answered_expire
      simp [heeding, Station.expire, hexpire]
  | step =>
      rcases (act_step hact).2 with ⟨last, hstop, hstation, -, -⟩ | ⟨sent, channel, hstep, -, -, -, -⟩
      · rw [hstation]
        exact (or_iff_left (h.stop_heeds hstop)).symm
      · exact h.answered_step hstep

/-- A run answers a download by the datagrams that are taken in it in the handshake. -/
theorem answered_run (hstart : Download.start config fetch server = .ok d)
    (hrun : (start d faults).run link incidents = some e) :
    e.station.machine.Answered ↔ ∃ x ∈ (start d faults).heeded link incidents, x.Answers := by
  have hfresh : ¬ d.Answered := by
    rw [Download.Answered, (Download.fresh_of_start hstart).1]
    exact id
  refine (@run_keeps _ _ _ link heeding (fun now seen => Reaches link (start d faults) now ∧
    (now.station.machine.Answered ↔ ∃ x ∈ seen, x.Answers)) ?_ _ _ [] _ ?_ hrun).2
  · rintro now seen incident next ⟨hreach, hanswered⟩ hact
    refine ⟨.step incident hreach hact, ?_⟩
    rw [answered_act (reaches_regular hstart hreach).1.1 hact, hanswered]
    simp only [List.mem_append, or_and_right, exists_or]
  · exact ⟨.refl, iff_of_false hfresh (by simp)⟩

/-- A download that has gone wrong early has not been answered; what cannot be sent is no such error. -/
theorem Over.not_answered_of_early {window : Nat} {error : Error}
    (h : e.Over (.error (.error error))) (haccounts : e.station.machine.Accounts window e.log)
    (hregular : e.station.machine.Regular config fetch)
    (hcheck : FileRequest.check ⟨fetch.parameters, fetch.name⟩ = .ok ()) (hearly : error.Early) :
    ¬ e.station.machine.Answered := by
  rcases h with ⟨queue, last, hstop, hlast⟩ | ⟨stop, hstop, hunsent⟩
  · cases last with
    | ok t => cases hlast
    | error stop =>
        cases hlast
        exact hregular.not_answered_of_early haccounts hcheck hearly hstop
  · cases hstop
    cases hunsent <;> exact hearly.elim

end Encounter

/-- What a client's errand has come to: how it has ended, if it has, what the place of the file holds, and
the datagrams that were taken in the handshake. -/
structure Errand where
  result : Option (Except Stop Statistics)
  place : Option Bytes
  heeded : List Arrival

/-- Lets a client ask for a file, and incidents happen one after the other. -/
def errand (config : Config) (fetch : Fetch) (server : Except Error Address) (link : Link)
    (faults : FaultModel) (incidents : List Incident) : Option Errand :=
  match Download.start config fetch server with
  | .error e => some ⟨some (.error (.error e)), fetch.before, []⟩
  | .ok d =>
      ((Encounter.start d faults).run link incidents).map fun e =>
        ⟨e.station.result, e.station.machine.file, (Encounter.start d faults).heeded link incidents⟩

/-- **As long as no datagram answers, the place of the file is as it was; and so it is after every errand
that goes wrong early.**  No errand ends well without an answer. -/
theorem place_kept {config : Config} {fetch : Fetch} {server : Except Error Address} {link : Link}
    {faults : FaultModel} {incidents : List Incident} {o : Errand}
    (h : errand config fetch server link faults incidents = some o) :
    ((∀ x ∈ o.heeded, ¬ x.Answers) → o.place = fetch.before) ∧
      (∀ e, o.result = some (.error (.error e)) → e.Early →
        (∀ x ∈ o.heeded, ¬ x.Answers) ∧ o.place = fetch.before) ∧
      ∀ t, o.result = some (.ok t) → ∃ x ∈ o.heeded, x.Answers := by
  unfold errand at h
  split at h
  · cases h
    exact ⟨fun _ => rfl, fun _ _ _ => ⟨nofun, rfl⟩, nofun⟩
  · rename_i d hstart
    obtain ⟨e, hrun, rfl⟩ := Option.map_eq_some_iff.mp h
    obtain ⟨-, hcheck, -⟩ := Download.regular_start hstart
    obtain ⟨⟨haccounts, hregular⟩, hover⟩ :=
      Encounter.reaches_regular hstart (Encounter.reaches_of_run .refl hrun)
    have hanswered := Encounter.answered_run hstart hrun
    have hplace : ¬ e.station.machine.Answered → e.station.machine.file = fetch.before := by
      intro hnone
      rw [Download.file_of_not_answered hnone, hregular.fetch_eq]
    refine ⟨fun hnone => hplace ?_, fun error hresult hearly => ?_, fun t hresult => ?_⟩
    · rw [hanswered]
      rintro ⟨x, hx, hanswers⟩
      exact hnone x hx hanswers
    · have hnone := (hover _ hresult).not_answered_of_early haccounts hregular hcheck hearly
      exact ⟨fun x hx hanswers => hnone (hanswered.mpr ⟨x, hx, hanswers⟩), hplace hnone⟩
    · obtain ⟨queue, last, hstop, -⟩ := (hover _ hresult).ok
      obtain ⟨s, hd⟩ := (haccounts.ends hstop).1 last rfl
      exact hanswered.mp (Download.answered_of_stage hd trivial)

/-- A client that asks again for a letter of which it has a copy. -/
def copyFetch : Fetch := { Encounter.letterFetch with before := some [10, 20] }

/-- Some bytes are no packet, and a packet is no answer.  The request is sent again when nothing comes;
then there is no such letter. -/
def refusingArrivals : List Incident :=
  let mail (source : String) (bytes : Bytes) : List Incident := [.arrival ⟨⟨source, 0⟩, bytes⟩, .step]
  [.step, .step] ++ mail "stranger" [1, 2, 3] ++ [.step] ++
    mail "stranger" (Packet.control .ack 7).frame ++ [.step, .timer, .step, .step] ++
    mail "server" (Packet.control .fnameBad 0).frame

/-- All three datagrams were looked at, and the copy is still there. -/
theorem copy_kept : ∃ o,
    errand {} copyFetch (.ok ⟨"server", 0⟩) .up (.ofConfig {}) refusingArrivals = some o ∧
    o.result = some (.error (.error (.fileNotFound "letter"))) ∧ o.heeded.length = 3 ∧
    (∀ x ∈ o.heeded, ¬ x.Answers) ∧ o.place = some [10, 20] := by
  have hends : (errand {} copyFetch (.ok ⟨"server", 0⟩) .up (.ofConfig {}) refusingArrivals).any
      (fun o => decide (o.heeded.length = 3) && o.result.any fun
        | .ok _ => false
        | .error stop => decide (stop = .error (.fileNotFound "letter"))) = true := by
    decide +kernel
  obtain ⟨o, herrand, hgood⟩ := (Option.any_eq_true _ _).mp hends
  rw [Bool.and_eq_true] at hgood
  obtain ⟨result, hresult, hmissing⟩ := (Option.any_eq_true _ _).mp hgood.2
  cases result with
  | ok t => cases hmissing
  | error stop =>
      rw [of_decide_eq_true hmissing] at hresult
      exact ⟨o, herrand, hresult, of_decide_eq_true hgood.1, (place_kept herrand).2.1 _ hresult trivial⟩

end Scenario

end SelectiveReject
