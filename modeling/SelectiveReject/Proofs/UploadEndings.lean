import SelectiveReject.Proofs.Account
import SelectiveReject.Proofs.Settling

/-!
# How an upload ends

A client may acknowledge, ask for and confirm whatever numbers it likes, with any bytes, and it may keep
silent.  The window of the upload stays in order all the same, with its numbers in their word, and no
operation on it fails in a way that ends the upload.  What remains depends on the file:

```
missing       fileNotFound
unreadable    the error of reading it
contents      ok, or peerSilent when too many waits have ended without an answer
```
-/

namespace SelectiveReject

open Scenario

namespace Serving

variable {j : Consignment} {s s' : Serving} {activity activity' : Activity}
  {queue queue' : List Arrival} {sent : List Packet} {limit : Nat}

theorem beginWait_giveUp (h : s.retry.Within limit) (hlimit : limit + 1 < limit32)
    (hpatient : ¬ s.retry.Patient) (goal : Goal) :
    s.beginWait goal queue = .fail (.peerSilent limit) := by
  rw [beginWait_of_not_patient hpatient, h.refusal hlimit]
  rfl

/-- An upload whose file is open ends well, or gives the client up. -/
theorem step_stop (h : s.Fits j) (hdoing : s.Doing activity) (hretry : s.retry.Within limit)
    (hlimit : limit + 1 < limit32) {result : Except Stop Statistics}
    (hstop : s.step queue activity = .stop result) :
    (∃ t, result = .ok t) ∨ result = .error (.error (.peerSilent limit)) := by
  have hgoes := step_spec h hdoing queue
  rw [hstop] at hgoes
  cases hgoes with
  | finish => exact Or.inl ⟨_, rfl⟩
  | giveUp goal hpatient => exact Or.inr (congrArg _ (hretry.refusal hlimit))

/-- What was opened cannot be read, and nothing has been sent of it. -/
structure Unreadable (s : Serving) : Prop where
  unread : s.unread = none
  window : s.window.Valid
  fresh : s.window.current = 1
  opened : s.Open

theorem Unreadable.step (h : s.Unreadable) (queue : List Arrival) :
    s.step queue .sending = .fail unreadableError := by
  have hopen : s.window.isOpen = .ok true := by
    rw [SendWindow.isOpen_eq h.window]
    exact congrArg Except.ok (decide_eq_true h.opened)
  unfold Serving.step
  simp only [hopen, sendNext, h.unread]

end Serving

namespace Upload

/-- The ways in which an upload ends. -/
inductive Ends (config : Config) (request : FileRequest) : Source → Except Stop Statistics → Prop
  | missing : Ends config request .missing (.error (.error (.fileNotFound request.name)))
  | unreadable : Ends config request .unreadable (.error (.error unreadableError))
  | done (file : Bytes) (t : Statistics) : Ends config request (.contents file) (.ok t)
  | silent (file : Bytes) :
      Ends config request (.contents file) (.error (.error (.peerSilent config.maxTries)))

/-- An upload that is in order: it has opened its file, or cannot, or its window fits what it sends. -/
inductive Sound (config : Config) (request : FileRequest) (client : Address) : Source → Upload → Prop
  | opening (source : Source) :
      Sound config request client source (.opening config request client source)
  | refused : Sound config request client .missing (.refused request client)
  | unreadable (s : Serving) (h : s.Unreadable) :
      Sound config request client .unreadable (.serving s .sending)
  | serving (j : Consignment) (s : Serving) (activity : Activity) (hfits : s.Fits j)
      (hdoing : s.Doing activity) (hretry : s.retry.Within config.maxTries) :
      Sound config request client (.contents j.file) (.serving s activity)

variable {config : Config} {request : FileRequest} {client : Address} {source : Source}
  {u u' : Upload} {queue queue' : List Arrival} {sent : List Packet}

theorem openFile_unreadable (hcheck : request.check = .ok ()) (queue : List Arrival) :
    ∃ s : Serving, s.Unreadable ∧ openFile config request client none queue =
      .next (.serving s .sending) queue [.control .fnameOk 0] := by
  obtain ⟨hpos, hle, -, -⟩ :=
    (Parameters.check_eq_ok_iff _).mp (FileRequest.parameters_of_check hcheck)
  unfold openFile
  rw [SendWindow.make_eq hpos hle]
  refine ⟨_, ⟨rfl, (@SendWindow.keeps_new (fun _ => []) _ hpos).toValid, rfl, ?_⟩, rfl⟩
  show 1 < 1 + (SlotRing.filled _ hpos Pane.vacant).size
  rw [SlotRing.size_filled]
  exact Nat.lt_add_of_pos_right hpos

/-- The client is told whether the file could be opened. -/
theorem step_opening_sound (hcheck : request.check = .ok ())
    (hcount : ∀ file, source = .contents file →
      pieceCount file request.parameters.buffer.toNat ≤ limit32 - 2) (queue : List Arrival) :
    ∃ u flag, Machine.step (Upload.opening config request client source) queue =
      .next u queue [.control flag 0] ∧ Sound config request client source u := by
  cases source with
  | missing => exact ⟨_, .fnameBad, rfl, .refused⟩
  | unreadable =>
      obtain ⟨s, hs, hopened⟩ := @openFile_unreadable config request client hcheck queue
      exact ⟨_, .fnameOk, hopened, .unreadable s hs⟩
  | contents file =>
      let j : Consignment := ⟨request, file, hcheck, hcount file rfl⟩
      have hfresh : ¬ (Serving.opened config j client).Ended := fun hended => hended rfl
      exact ⟨_, .fnameOk, step_opening config j client queue,
        .serving j _ .sending (Serving.fits_opened config j client) hfresh ⟨rfl, Nat.zero_le _⟩⟩

/-- Each step keeps an upload in order, and what it sends fits a datagram. -/
theorem Sound.step (hcheck : request.check = .ok ())
    (hcount : ∀ file, source = .contents file →
      pieceCount file request.parameters.buffer.toNat ≤ limit32 - 2)
    (h : Sound config request client source u) (hstep : Machine.step u queue = .next u' queue' sent) :
    Sound config request client source u' ∧ ∀ p ∈ sent, p.payload.length ≤ Packet.maxPayload := by
  cases h with
  | opening =>
      obtain ⟨v, flag, hopened, hsound⟩ := @step_opening_sound config request client source hcheck
        hcount queue
      cases hopened.symm.trans hstep
      refine ⟨hsound, fun p hp => ?_⟩
      rw [List.mem_singleton.mp hp]
      exact Nat.zero_le _
  | refused => cases hstep
  | unreadable s hs => cases (hs.step queue).symm.trans hstep
  | serving j s activity hfits hdoing hretry =>
      have hgoes := Serving.step_spec hfits hdoing queue
      rw [show s.step queue activity = .next u' queue' sent from hstep] at hgoes
      refine ⟨?_, hgoes.short⟩
      match u' with
      | .opening .. | .refused .. => cases hgoes
      | .serving s' activity' =>
          obtain ⟨hfits', hdoing', -⟩ := hgoes.fits hfits hdoing
          exact .serving j s' activity' hfits' hdoing' (hgoes.within hretry)

theorem Sound.expire (h : Sound config request client source u) :
    Sound config request client source u.expire := by
  cases h with
  | opening => exact .opening source
  | refused => exact .refused
  | unreadable s hs => exact .unreadable s hs
  | serving j s activity hfits hdoing hretry =>
      cases activity with
      | waiting goal => exact .serving j s _ hfits hdoing.overdue hretry
      | sending | listening | overdue | done => exact .serving j s _ hfits hdoing hretry

/-- An upload that is in order ends in one of its ways. -/
theorem Sound.stop (hlimit : config.maxTries + 1 < limit32) (hcheck : request.check = .ok ())
    (hcount : ∀ file, source = .contents file →
      pieceCount file request.parameters.buffer.toNat ≤ limit32 - 2)
    (h : Sound config request client source u) {result : Except Stop Statistics}
    (hstop : Machine.step u queue = .stop result) : Ends config request source result := by
  cases h with
  | opening =>
      obtain ⟨v, flag, hopened, -⟩ := @step_opening_sound config request client source hcheck
        hcount queue
      cases hopened.symm.trans hstop
  | refused =>
      cases hstop
      exact .missing
  | unreadable s hs =>
      cases (hs.step queue).symm.trans hstop
      exact .unreadable
  | serving j s activity hfits hdoing hretry =>
      rcases Serving.step_stop hfits hdoing hretry hlimit hstop with ⟨t, rfl⟩ | rfl
      · exact .done j.file t
      · exact .silent j.file

end Upload

namespace Scenario.Encounter

/-- **Nothing that arrives can break an upload.**  Unless the link refuses its client, it ends only in the
ways of its file, and its window is in order all the time. -/
theorem upload_unbroken {payload : Bytes} {request : FileRequest}
    (hrequest : FileRequest.ofPayload payload = .ok request) {source : Source}
    (hcount : ∀ file, source = .contents file →
      pieceCount file request.parameters.buffer.toNat ≤ limit32 - 2)
    {config : Config} (hconfig : config.check = .ok ()) (htries : config.maxTries < limit32 - 1)
    {faults : FaultModel} (hfaults : faults.rate = config.rate) {client : Address} {link : Link}
    {e : Encounter Upload}
    (h : Reaches link (start (.start config request client source) faults) e) :
    (∀ result, e.station.result = some result →
      Upload.Ends config request source result ∨
        ∃ stop, link.Refuses client stop ∧ result = .error stop) ∧
    ∀ s activity, e.station.machine = .serving s activity →
      s.window.Valid ∧ s.window.current < limit32 := by
  have hcheck := FileRequest.check_of_ofPayload hrequest
  have hlimit : config.maxTries + 1 < limit32 := by omega
  obtain ⟨⟨hsound, hclient⟩, hclosed⟩ := withstands
    (fun u _ => Upload.Sound config request client source u ∧ u.client = client)
    (FaultModel.proper_of_check hconfig hfaults) ⟨.opening source, rfl⟩
    (fun u _ h => ⟨h.1.expire, u.client_expire.trans h.2⟩)
    (fun _ _ _ _ _ _ h hstep =>
      ⟨(h.1.step hcheck hcount hstep).1, (Upload.steps_of_step hstep).client.trans h.2⟩)
    (fun _ _ _ _ _ _ h hstep => (h.1.step hcheck hcount hstep).2) h
  refine ⟨fun result hresult => ?_, fun s activity hs => ?_⟩
  · rcases hclosed result hresult with ⟨queue, more, last, -, hstop, hlast⟩ | hrefused
    · have hends := hsound.stop hlimit hcheck hcount hstop
      left
      cases hlast
      cases hends with
      | missing => exact .missing
      | unreadable => exact .unreadable
      | done file t => exact .done file _
      | silent file => exact .silent file
    · exact Or.inr (hclient ▸ hrefused)
  · rw [hs] at hsound
    cases hsound with
    | unreadable _ hunread =>
        refine ⟨hunread.window, ?_⟩
        rw [hunread.fresh]
        decide
    | serving j s activity hfits =>
        have hlast := j.last_succ_lt
        have hreached := hfits.reached
        exact ⟨hfits.window.toValid, by omega⟩

/-- Numbers that were never sent are acknowledged, asked for and confirmed, and some bytes are no packet. -/
def hostileIncidents : List Incident :=
  let mail (flag : Flag) (number : Nat) : Incident :=
    .arrival ⟨⟨"client", 0⟩, (Packet.control flag number).frame⟩
  let steps (count : Nat) : List Incident := List.replicate count .step
  steps 2 ++ [mail .ack 0, mail .ack (limit32 - 1), mail .srej 0, mail .srej (limit32 - 1)] ++ steps 5 ++
    [mail .eofAck 0, mail .ack 2, mail .ack 1, .arrival ⟨⟨"client", 0⟩, [1, 2, 3]⟩] ++ steps 10 ++
    [.timer] ++ steps 2

/-- The letter is sent all the same, and its end is announced; then the client is given up. -/
theorem hostile_given_up : ∃ e : Encounter Upload,
    Reaches .up (start (.start { maxTries := 1 } letterRequest ⟨"client", 0⟩
      (.contents (List.replicate 900 65))) (.ofConfig {})) e ∧
    sentNumbers e.log = [(.fnameOk, 0), (.data, 1), (.data, 2), (.data, 3), (.endOfFile, 4),
      (.timeoutData, 3)] ∧
    e.station.result = some (.error (.error (.peerSilent 1))) := by
  have hcount : ∀ file, Source.contents (List.replicate 900 65) = .contents file →
      pieceCount file letterRequest.parameters.buffer.toNat ≤ limit32 - 2 := by
    rintro file ⟨⟩
    decide +kernel
  have hends : ((start (Upload.start { maxTries := 1 } letterRequest ⟨"client", 0⟩
      (.contents (List.replicate 900 65))) (.ofConfig {})).run .up hostileIncidents).any
      (fun e => decide (sentNumbers e.log = [(.fnameOk, 0), (.data, 1), (.data, 2), (.data, 3),
        (.endOfFile, 4), (.timeoutData, 3)]) && e.station.result.any (!·.isOk)) = true := by
    decide +kernel
  obtain ⟨e, hrun, hgood⟩ := (Option.any_eq_true _ _).mp hends
  rw [Bool.and_eq_true] at hgood
  obtain ⟨result, hresult, hfailed⟩ := (Option.any_eq_true _ _).mp hgood.2
  have hreach := reaches_of_run .refl hrun
  have hrequest : FileRequest.ofPayload letterRequest.toPayload = .ok letterRequest :=
    FileRequest.ofPayload_toPayload rfl
  have hconfig : Config.check { maxTries := 1 } = .ok () := rfl
  obtain ⟨hended, -⟩ := upload_unbroken hrequest hcount hconfig (by decide) rfl hreach
  rcases hended result hresult with hends | ⟨stop, hrefused, -⟩
  · cases hends with
    | done file t => cases hfailed
    | silent file => exact ⟨e, hreach, of_decide_eq_true hgood.1, hresult⟩
  · exact absurd hrefused (Link.not_refuses_up _ stop)

end Scenario.Encounter

end SelectiveReject
