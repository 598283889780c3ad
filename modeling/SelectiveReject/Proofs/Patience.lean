import SelectiveReject.Proofs.Silence
import SelectiveReject.Proofs.Shifts
import SelectiveReject.Proofs.Settling
import SelectiveReject.Proofs.UploadEndings
import SelectiveReject.Proofs.DownloadEndings

/-!
# Silent peers are given up

An upload that waits for its client, and a download that waits for the answer of its server, keep the ritual
of waits and reminders: so many waits in vain as the settings allow, each followed by the same packet, and
the end right after the last.  A count that is set back by each datagram says how many waits have timed out
in a row, so nothing else ends with `peerSilent`:

```
upload      the oldest packet that waits, or the end of the file again
download    the request again
```
-/

namespace SelectiveReject

open Scenario

namespace Serving

variable {s s' : Serving} {goal : Goal} {activity activity' : Activity} {log : List Deed}
  {queue queue' : List Arrival} {sent : List Packet} {limit : Nat}

/-! ### The ritual of an upload -/

/-- Nothing but a datagram can help the upload on. -/
def Stuck (s : Serving) (goal : Goal) : Prop :=
  goal = .farewell ∨ goal = .room ∧ s.window.isOpen = .ok false

instance (s : Serving) (goal : Goal) : Decidable (s.Stuck goal) :=
  match goal, h : s.window.isOpen with
  | .farewell, _ => isTrue (Or.inl rfl)
  | .room, .ok false => isTrue (Or.inr ⟨rfl, h⟩)
  | .room, .ok true => isFalse (by simp [Stuck, h])
  | .room, .error _ => isFalse (by simp [Stuck, h])
  | .more, _ => isFalse (by simp [Stuck])

/-- The packet that reminds a client which keeps silent. -/
inductive Reminds (s : Serving) : Packet → Prop
  | oldest (pane : Pane) (holdest : s.window.oldestUnacked = some pane.seq)
      (hpane : s.window.pane? pane.seq = some pane) :
      Reminds s ⟨UInt32.ofNat pane.seq, .timeoutData, pane.payload⟩
  | farewell (hall : s.window.allAcked = true) :
      Reminds s (.control .endOfFile (s.eofNumber.getD s.window.current))

/-- The upload is the same in all that a wait and a reminder depend on. -/
structure Alike (s s' : Serving) : Prop where
  window : s'.window = s.window
  client : s'.client = s.client
  maxTries : s'.retry.maxTries = s.retry.maxTries
  eofNumber : s'.eofNumber.getD s'.window.current = s.eofNumber.getD s.window.current

theorem Alike.refl (s : Serving) : s.Alike s := ⟨rfl, rfl, rfl, rfl⟩

theorem Alike.trans {s'' : Serving} (h : s.Alike s') (h' : s'.Alike s'') : s.Alike s'' :=
  ⟨h'.window.trans h.window, h'.client.trans h.client, h'.maxTries.trans h.maxTries,
    h'.eofNumber.trans h.eofNumber⟩

theorem Stuck.alike (h : s.Stuck goal) (ha : s.Alike s') : s'.Stuck goal := by
  unfold Stuck at *
  rw [ha.window]
  exact h

theorem heardAll_stuck (h : s.Stuck goal) : s.heardAll goal = s.beginWait goal [] := by
  rcases h with rfl | ⟨rfl, hclosed⟩
  · rfl
  · unfold heardAll
    rw [hclosed]

theorem alike_count (s : Serving) (count : Nat) :
    s.Alike { s with retry := { s.retry with count := count } } := ⟨rfl, rfl, rfl, rfl⟩

theorem alike_announceEnd (s : Serving) : s.Alike s.announceEnd.1 := ⟨rfl, rfl, rfl, rfl⟩

theorem alike_resend (s : Serving) (seq : Nat) (flag : Flag) : s.Alike (s.resend seq flag).1 := by
  unfold resend
  split
  · exact .refl s
  · exact ⟨rfl, rfl, rfl, rfl⟩

/-- What an upload says again to its client is the same as long as its window is. -/
theorem catchUp_reminds (h : s.Kept log) (hstuck : s.Stuck goal) :
    ∃ p, s.Reminds p ∧
      (p.payload = [] ∨ ∃ q, .sent q ∈ log ∧ q.payload = p.payload) ∧
      ∀ s', s.Alike s' → ∃ s'', s'.catchUp goal [] = .next (.serving s'' (.listening goal)) [] [p] ∧
        s.Alike s'' ∧ s''.retry = s'.retry := by
  obtain ⟨content, hkeeps, hsent⟩ := h.window
  have holdest := hkeeps.oldestUnacked_eq
  by_cases hheld : s.window.lower < s.window.current
  · have hseq : s.window.Holds s.window.lower := ⟨Nat.le_refl _, hheld⟩
    rw [if_pos hheld] at holdest
    refine ⟨⟨UInt32.ofNat s.window.lower, .timeoutData, content s.window.lower⟩, ?_,
      Or.inr ⟨_, hsent _ hseq, rfl⟩, fun s' ha => ⟨(s'.resend s.window.lower .timeoutData).1, ?_,
        ha.trans (alike_resend _ _ _), (resend_stays _ _ _).retry⟩⟩
    · refine .oldest ⟨s.window.lower, content s.window.lower, false⟩ holdest ?_
      have hpane := hkeeps.kept _ hseq
      unfold SendWindow.pane?
      dsimp only
      rw [hpane]
      exact if_pos ⟨hseq, rfl⟩
    · have hresend : s'.window.resend s.window.lower .timeoutData =
          .ok ⟨UInt32.ofNat s.window.lower, .timeoutData, content s.window.lower⟩ := by
        rw [ha.window, hkeeps.resend_eq hseq]
      unfold catchUp
      rw [ha.window, holdest]
      simp only [resend, hresend]
  · rw [if_neg hheld] at holdest
    -- a window in which nothing waits is open, so it is the farewell that is waited for
    have hgoal : goal = .farewell := by
      rcases hstuck with hgoal | ⟨-, hclosed⟩
      · exact hgoal
      · have hpos : 0 < s.window.size := s.window.panes.nonempty
        have hord := hkeeps.ordered
        rw [SendWindow.isOpen_eq hkeeps.toValid, decide_eq_true (by omega)] at hclosed
        cases hclosed
    subst hgoal
    refine ⟨.control .endOfFile (s.eofNumber.getD s.window.current), .farewell ?_, Or.inl rfl,
      fun s' ha => ⟨s'.announceEnd.1, ?_, ha.trans (alike_announceEnd s'), rfl⟩⟩
    · unfold SendWindow.allAcked
      rw [holdest]
      rfl
    · unfold catchUp
      rw [ha.window, holdest]
      simp only [announceEnd, ha.eofNumber]

/-- An upload that can only wait keeps the ritual. -/
theorem ritual (h : s.Kept log) (hstuck : s.Stuck goal) (hmax : s.retry.maxTries = limit)
    (hlimit : limit + 1 < limit32) :
    ∃ p, s.Reminds p ∧ (p.payload = [] ∨ ∃ q, .sent q ∈ log ∧ q.payload = p.payload) ∧
      Encounter.Ritual limit p s.client
        (fun k u => ∃ s', u = Upload.serving s' (.listening goal) ∧ s.Alike s' ∧ s'.retry.count = k)
        (fun k u => ∃ s', u = Upload.serving s' (.waiting goal) ∧ s.Alike s' ∧ s'.retry.count = k + 1)
        (fun k u => ∃ s', u = Upload.serving s' (.overdue goal) ∧ s.Alike s' ∧ s'.retry.count = k + 1) := by
  obtain ⟨p, hreminds, hpayload, hcatchUp⟩ := catchUp_reminds h hstuck
  have hheard : ∀ s', s.Alike s' → Machine.step (Upload.serving s' (.listening goal)) [] =
      s'.beginWait goal [] := fun s' ha => heardAll_stuck (hstuck.alike ha)
  refine ⟨p, hreminds, hpayload, ?_, ?_, ?_, ?_, ?_⟩
  · rintro k _ ⟨s', rfl, ha, rfl⟩ hlt
    have hpatient : s'.retry.Patient := ⟨by rw [ha.maxTries, hmax]; exact hlt, by omega⟩
    refine ⟨_, ?_, _, rfl, ha.trans (alike_count s' (s'.retry.count + 1)), rfl⟩
    rw [hheard s' ha, beginWait, Retry.attempt_eq hpatient]
  · rintro k _ ⟨s', rfl, -, -⟩
    rfl
  · rintro k _ ⟨s', rfl, ha, hcount⟩
    exact ⟨s', rfl, ha, hcount⟩
  · rintro k _ ⟨s', rfl, ha, hcount⟩
    obtain ⟨s'', hstep, ha', hretry⟩ := hcatchUp s' ha
    exact ⟨_, hstep, ⟨s'', rfl, ha', by rw [hretry, hcount]⟩, ha'.client⟩
  · rintro _ ⟨s', rfl, ha, hcount⟩
    have hmax' : s'.retry.maxTries = limit := ha.maxTries.trans hmax
    have hover : ¬ s'.retry.Patient := fun hpatient => by
      have := hpatient.1
      omega
    rw [hheard s' ha]
    exact beginWait_giveUp ⟨hmax', Nat.le_of_eq hcount⟩ hlimit hover goal

/-! ### The count of an upload -/

/-- An upload loses patience only when it would begin a wait. -/
theorem step_silent (h : s.window.Valid) (hword : s.window.current < limit32) {count : Nat}
    (hstop : s.step queue activity = .stop (.error (.error (.peerSilent count)))) :
    ∃ goal, activity = .listening goal ∧
      s.beginWait goal [] = .stop (.error (.error (.peerSilent count))) := by
  cases activity with
  | sending =>
      unfold step at hstop
      rw [SendWindow.isOpen_eq h] at hstop
      by_cases hopen : s.Open
      · rw [show decide (s.window.current < s.window.lower + s.window.size) = true from
          decide_eq_true hopen] at hstop
        unfold sendNext at hstop
        dsimp only at hstop
        split at hstop
        · cases hstop
        · split at hstop
          · cases hstop
          · rename_i chunk _ _ _
            rcases SendWindow.addPane_cases h hopen chunk with ⟨-, hadd⟩ | ⟨a, window, hadd⟩ <;>
            · rw [hadd] at hstop
              cases hstop
      · rw [show decide (s.window.current < s.window.lower + s.window.size) = false from
          decide_eq_false hopen] at hstop
        cases hstop
  | listening goal =>
      cases queue with
      | nil =>
          refine ⟨goal, rfl, ?_⟩
          cases goal with
          | more => cases hstop
          | farewell => exact hstop
          | room =>
              change s.heardAll .room = _ at hstop
              unfold heardAll at hstop
              dsimp only at hstop
              split at hstop
              · cases hstop
              · cases hstop
              · exact hstop
      | cons x queue =>
          obtain ⟨_, _, _, hheard, -⟩ := hear_shifts h hword goal x queue
          cases hheard.symm.trans hstop
  | waiting goal => cases queue <;> cases hstop
  | overdue goal =>
      change s.catchUp goal queue = _ at hstop
      unfold catchUp at hstop
      split at hstop <;> cases hstop
  | done => cases hstop

/-- Patience is lost with the count at its limit. -/
theorem beginWait_silent (hretry : s.retry.Within limit) (hlimit : limit + 1 < limit32) {count : Nat}
    (hstop : s.beginWait goal [] = .stop (.error (.error (.peerSilent count)))) :
    count = limit ∧ limit ≤ s.retry.count := by
  have hcount := hretry.count
  have hmax := hretry.maxTries
  by_cases hpatient : s.retry.Patient
  · rw [beginWait, Retry.attempt_eq hpatient] at hstop
    cases hstop
  · rw [beginWait_giveUp hretry hlimit hpatient] at hstop
    cases hstop
    refine ⟨rfl, Nat.not_lt.mp fun hlt => hpatient ⟨by omega, by omega⟩⟩

/-- A step keeps the client, and the waits within their limit. -/
theorem Turns.within (h : s.Turns activity queue (.next (.serving s' activity') queue' sent))
    (hretry : s.retry.Within limit) : s'.client = s.client ∧ s'.retry.Within limit := by
  cases h with
  | piece _ _ _ hstays | announce _ _ _ hstays | hear _ _ _ _ _ _ hstays | again _ _ _ _ hstays =>
      refine ⟨hstays.client, ?_⟩
      rw [hstays.retry]
      exact hretry
  | closed | goOn => exact ⟨rfl, hretry⟩
  | await _ _ hpatient => exact ⟨rfl, hretry.maxTries, hretry.maxTries ▸ hpatient⟩
  | wake => exact ⟨rfl, hretry.reset⟩

end Serving

namespace Upload

variable {config : Config} {client : Address} {u u' : Upload} {log : List Deed}
  {queue queue' : List Arrival} {sent : List Packet}

/-- An upload whose window keeps what was sent, with its waits within their limit. -/
inductive Steady (config : Config) (client : Address) : Upload → List Deed → Prop
  | opening (request : FileRequest) (source : Source) (log : List Deed) :
      Steady config client (.opening config request client source) log
  | refused (request : FileRequest) (log : List Deed) : Steady config client (.refused request client) log
  | serving (s : Serving) (activity : Activity) (log : List Deed) (hkept : s.Kept log)
      (hclient : s.client = client) (hretry : s.retry.Within config.maxTries)
      (hcount : ∀ goal, activity = .waiting goal → 1 ≤ s.retry.count) (hspoke : ∃ p, .sent p ∈ log) :
      Steady config client (.serving s activity) log

theorem Steady.expire (h : Steady config client u log) : Steady config client (Machine.expire u) log := by
  cases h with
  | opening => exact .opening _ _ _
  | refused => exact .refused _ _
  | serving s activity log hkept hclient hretry hcount hspoke =>
      cases activity with
      | waiting goal => exact .serving s _ log hkept hclient hretry nofun hspoke
      | sending | listening | overdue | done => exact .serving s _ log hkept hclient hretry hcount hspoke

/-- An upload whose file has just been opened. -/
structure Fresh (config : Config) (client : Address) (s : Serving) : Prop where
  kept : ∀ log, s.Kept log
  client_eq : s.client = client
  retry : s.retry = ⟨0, config.maxTries⟩

/-- The first step of an upload fails for its window, or answers the request. -/
theorem step_fresh (config : Config) (request : FileRequest) (client : Address) (source : Source)
    (queue : List Arrival) :
    (∃ size, Machine.step (opening config request client source) queue = .fail (.invalidWindow size)) ∨
      Machine.step (opening config request client source) queue =
        .next (.refused request client) queue [.control .fnameBad 0] ∨
      ∃ s, Machine.step (opening config request client source) queue =
        .next (.serving s .sending) queue [.control .fnameOk 0] ∧ Fresh config client s := by
  have hopen : ∀ unread, (∃ size, openFile config request client unread queue =
      .fail (.invalidWindow size)) ∨ ∃ s, openFile config request client unread queue =
        .next (.serving s .sending) queue [.control .fnameOk 0] ∧ Fresh config client s := by
    intro unread
    unfold openFile SendWindow.make SlotRing.forWindow
    split
    · rename_i hmake
      split at hmake
      · cases hmake
      · cases hmake
        exact Or.inl ⟨_, rfl⟩
    · rename_i window hmake
      split at hmake
      · rename_i hsize
        cases hmake
        refine Or.inr ⟨_, rfl, fun log => ⟨⟨fun _ => [], SendWindow.keeps_new hsize.1, ?_⟩, ?_⟩, rfl, rfl⟩
        · exact fun seq hseq => absurd hseq.2 (Nat.not_lt.mpr hseq.1)
        · show Word.firstNumber < limit32
          decide
      · cases hmake
  cases source with
  | missing => exact Or.inr (Or.inl rfl)
  | unreadable => exact (hopen none).imp_right Or.inr
  | contents bytes => exact (hopen (some bytes)).imp_right Or.inr

theorem Steady.step (h : Steady config client u log) (hstep : Machine.step u queue = .next u' queue' sent) :
    Steady config client u' (log ++ deeds queue queue' sent) := by
  cases h with
  | opening request source =>
      rcases step_fresh config request client source queue with
        ⟨size, hfail⟩ | hrefused | ⟨s, hserving, hfresh⟩
      · cases hfail.symm.trans hstep
      · cases hrefused.symm.trans hstep
        exact .refused _ _
      · cases hserving.symm.trans hstep
        refine .serving s _ _ (hfresh.kept _) hfresh.client_eq ?_ nofun
          ⟨_, List.mem_append_right _ (sent_mem_deeds.mpr (List.mem_singleton.mpr rfl))⟩
        rw [hfresh.retry]
        exact ⟨rfl, Nat.zero_le _⟩
  | refused => cases hstep
  | serving s activity log hkept hclient hretry hcount hspoke =>
      have hturns := s.step_turns activity queue
      have hstep' : s.step queue activity = .next u' queue' sent := hstep
      rw [hstep'] at hturns
      obtain ⟨s', activity', rfl⟩ : ∃ s' activity', u' = .serving s' activity' := by
        cases hturns <;> exact ⟨_, _, rfl⟩
      have hshifts := Serving.step_shifts hkept.valid hkept.word hstep'
      obtain ⟨hclient', hretry'⟩ := hturns.within hretry
      obtain ⟨p, hp⟩ := hspoke
      refine .serving s' activity' _ (hkept.shifts hshifts fun p hp => sent_mem_deeds.mpr hp)
        (hclient'.trans hclient) hretry' ?_ ⟨p, List.mem_append_left _ hp⟩
      rintro goal rfl
      cases hturns with
      | await => exact Nat.le_add_left 1 _
      | hear _ _ _ _ _ _ _ hactivity => rcases hactivity with hactivity | hactivity <;> cases hactivity

/-- How many waits in a row have timed out. -/
def missed : Upload → Nat
  | .serving s (.waiting _) => s.retry.count - 1
  | .serving s _ => s.retry.count
  | _ => 0

/-- The count of an upload is that of its waits in a row that have timed out. -/
theorem counts (hlimit : config.maxTries + 1 < limit32) (client : Address) :
    Encounter.Counts config.maxTries (Steady config client) missed where
  expire _ _ h := h.expire
  next _ _ _ _ _ _ h hstep := h.step hstep
  timer u log _ hwait := by
    obtain ⟨-, s, goal, rfl⟩ := waiting_of_step hwait
    show s.retry.count ≤ s.retry.count - 1 + 1
    omega
  idle u hwait := by
    match u with
    | .opening .. | .refused .. => rfl
    | .serving s (.waiting goal) => exact absurd rfl hwait
    | .serving s .sending | .serving s (.listening _) | .serving s (.overdue _) | .serving s .done => rfl
  woken u log queue u' queue' sent _ hstep hwait := by
    obtain ⟨-, s, goal, rfl⟩ := waiting_of_step hwait
    cases queue with
    | nil => cases hstep
    | cons x queue =>
        cases hstep
        rfl
  kept u log queue u' queue' sent _ hstep hwait := by
    match u with
    | .refused .. => cases hstep
    | .opening config request client source =>
        rcases step_fresh config request client source queue with
          ⟨size, hfail⟩ | hrefused | ⟨s, hserving, hfresh⟩
        · cases hfail.symm.trans hstep
        · cases hrefused.symm.trans hstep
          exact Nat.le_refl 0
        · cases hserving.symm.trans hstep
          exact Nat.le_of_eq (congrArg Retry.count hfresh.retry)
    | .serving s activity =>
        have hturns := s.step_turns activity queue
        rw [show s.step queue activity = .next u' queue' sent from hstep] at hturns
        cases hturns with
        | piece _ _ _ hstays | announce _ _ _ hstays | again _ _ _ _ hstays =>
            exact Nat.le_of_eq (congrArg Retry.count hstays.retry)
        | hear _ _ _ _ _ _ hstays hactivity =>
            rcases hactivity with rfl | rfl <;> exact Nat.le_of_eq (congrArg Retry.count hstays.retry)
        | closed | goOn => exact Nat.le_refl _
        | await => exact Nat.le_refl _
        | wake => exact Nat.zero_le _
  gone u log queue count h hstop := by
    cases h with
    | opening request source =>
        rcases step_fresh config request client source queue with
          ⟨size, hfail⟩ | hrefused | ⟨s, hserving, -⟩
        · cases hfail.symm.trans hstop
        · cases hrefused.symm.trans hstop
        · cases hserving.symm.trans hstop
    | refused => cases hstop
    | serving s activity log hkept hclient hretry =>
        obtain ⟨goal, rfl, hsilent⟩ := Serving.step_silent hkept.valid hkept.word hstop
        obtain ⟨hcount, hle⟩ := Serving.beginWait_silent hretry hlimit hsilent
        refine ⟨hcount, hle, fun hwait => ?_⟩
        obtain ⟨-, _, _, hmachine⟩ := waiting_of_step hwait
        cases hmachine

end Upload

namespace Download

variable {config : Config} {fetch : Fetch} {server : Address} {d d' : Download} {log : List Deed}
  {queue queue' : List Arrival} {sent : List Packet} {limit : Nat}

/-! ### The ritual of a download -/

/-- The request as it was, to the server as it was. -/
structure Alike (d d' : Download) : Prop where
  request : d'.request = d.request
  server : d'.server = d.server
  maxTries : d'.retry.maxTries = d.retry.maxTries

/-- A download that waits for an answer keeps the ritual. -/
theorem ritual (hmax : d.retry.maxTries = limit) (hlimit : limit + 1 < limit32) :
    Encounter.Ritual limit d.request.toPacket d.server
      (fun k d' => d'.stage = .asked ∧ d.Alike d' ∧ d'.retry.count = k)
      (fun k d' => d'.stage = .handshake ∧ d.Alike d' ∧ d'.retry.count = k + 1)
      (fun k d' => d'.stage = .asking ∧ d.Alike d' ∧ d'.retry.count = k + 1) where
  begin := by
    rintro _ m ⟨hstage, ha, rfl⟩ hlt
    have hpatient : m.retry.Patient := ⟨by rw [ha.maxTries, hmax]; exact hlt, by omega⟩
    refine ⟨{ m with retry := { m.retry with count := m.retry.count + 1 }, stage := .handshake }, ?_,
      rfl, ⟨ha.request, ha.server, ha.maxTries⟩, rfl⟩
    show m.step [] = _
    unfold Download.step
    rw [hstage]
    simp only [beginWait, Retry.attempt_eq hpatient]
  wait := by
    rintro k m ⟨hstage, -⟩
    show m.step [] = _
    unfold Download.step
    rw [hstage]
  expire := by
    rintro k m ⟨hstage, ha, hcount⟩
    have hexpire : Machine.expire m = { m with stage := .asking } := by
      show m.expire = _
      unfold Download.expire
      rw [hstage]
    rw [hexpire]
    exact ⟨rfl, ⟨ha.request, ha.server, ha.maxTries⟩, hcount⟩
  remind := by
    rintro k m ⟨hstage, ha, hcount⟩
    refine ⟨{ m with
      peer := m.server
      statistics := { m.statistics with packetsSent := m.statistics.packetsSent + 1 }
      stage := .asked }, ?_, ⟨rfl, ⟨ha.request, ha.server, ha.maxTries⟩, hcount⟩, ha.server⟩
    show m.step [] = _
    unfold Download.step
    rw [hstage, ← ha.request]
  giveUp := by
    rintro m ⟨hstage, ha, hcount⟩
    have hmax' : m.retry.maxTries = limit := ha.maxTries.trans hmax
    have hover : ¬ m.retry.Patient := fun hpatient => by
      have := hpatient.1
      omega
    show m.step [] = _
    unfold Download.step
    rw [hstage]
    simp only [beginWait, Retry.Within.giveUp ⟨hmax', Nat.le_of_eq hcount⟩ hlimit hover, hmax']
    rfl

/-! ### The count of a download -/

/-- A download that asks one server for one file, with its waits within their limit. -/
structure Asks (config : Config) (fetch : Fetch) (server : Address) (d : Download) (log : List Deed) :
    Prop where
  accounts : d.Accounts fetch.parameters.window.toNat log
  regular : d.Regular config fetch
  server_eq : d.server = server
  spoke : d.stage = .asking ∨ ∃ p, .sent p ∈ log
  begun : d.stage = .handshake → 1 ≤ d.retry.count

/-- How many waits for the answer have timed out in a row. -/
def missed (d : Download) : Nat :=
  match d.stage with
  | .handshake => d.retry.count - 1
  | .asking | .asked => d.retry.count
  | .answered _ | .receiving _ | .silent _ | .complete _ => 0

theorem Moves.server_eq (h : Moves d queue (.next d' queue' sent)) : d'.server = d.server := by
  cases h <;> rfl

theorem Moves.spoke (h : Moves d queue (.next d' queue' sent)) (hstage : d.stage = .asking) :
    sent ≠ [] := by
  cases h with
  | ask => exact List.cons_ne_nil _ _
  | beginWait _ hd | ignoreAnswer _ _ _ hd | granted _ _ _ hd | standIn _ _ _ hd | opened _ _ hd
  | openedWith _ _ _ _ hd | ignore _ _ _ _ hd | take _ _ _ _ _ hd => cases hstage.symm.trans hd

theorem stage_after (d : Download) (r : Reply) : (d.after r).stage ≠ .handshake := by
  unfold after
  cases r.complete <;> exact nofun

theorem Moves.begun (h : Moves d queue (.next d' queue' sent)) (hstage : d'.stage = .handshake) :
    d'.retry.count = d.retry.count + 1 := by
  cases h with
  | beginWait => rfl
  | ask | ignoreAnswer | granted | standIn | opened => cases hstage
  | openedWith | take => exact absurd hstage (stage_after _ _)
  | ignore _ _ _ s hd => cases hd.symm.trans hstage

theorem missed_after (d : Download) (r : Reply) : missed (d.after r) = 0 := by
  unfold missed after
  cases r.complete <;> rfl

/-- No step adds to the count, and a datagram sets it back. -/
theorem Moves.missed_le (h : Moves d queue (.next d' queue' sent)) :
    missed d' ≤ missed d ∧ (d.stage = .handshake ∨ (∃ s, d.stage = .receiving s) → missed d' = 0) := by
  cases h with
  | ask _ hd | beginWait _ hd =>
      unfold missed
      rw [hd]
      refine ⟨Nat.le_refl _, ?_⟩
      rintro (hwait | ⟨s, hwait⟩) <;> cases hwait
  | ignoreAnswer | granted | standIn | opened => exact ⟨Nat.zero_le _, fun _ => rfl⟩
  | openedWith _ _ _ r => exact ⟨missed_after d r ▸ Nat.zero_le _, fun _ => missed_after d r⟩
  | take _ _ _ _ r => exact ⟨missed_after d r ▸ Nat.zero_le _, fun _ => missed_after d r⟩
  | ignore _ _ t s hd =>
      refine ⟨Nat.le_refl _, fun _ => ?_⟩
      unfold missed
      simp only [hd]

/-- A download loses patience only when it would begin a wait. -/
theorem Moves.gone {count : Nat} (h : Moves d queue (.stop (.error (.error (.peerSilent count))))) :
    d.stage = .asked ∧ ¬ d.retry.Patient := by
  cases h with
  | giveUp _ _ hd hpatient => exact ⟨hd, hpatient⟩
  | unbuffered _ _ _ _ hmake => cases make_error hmake

theorem Asks.step (h : d.Asks config fetch server log)
    (hcheck : FileRequest.check ⟨fetch.parameters, fetch.name⟩ = .ok ())
    (hstep : Machine.step d queue = .next d' queue' sent) :
    d'.Asks config fetch server (log ++ deeds queue queue' sent) := by
  have hmoves := step_moves h.accounts.tidy queue
  rw [show d.step queue = .next d' queue' sent from hstep] at hmoves
  refine ⟨h.accounts.step hstep, (h.regular.step h.accounts hcheck hstep).1,
    hmoves.server_eq.trans h.server_eq, Or.inr ?_, fun hstage => ?_⟩
  · rcases h.spoke with hstage | ⟨p, hp⟩
    · obtain ⟨p, hp⟩ := List.exists_mem_of_ne_nil _ (hmoves.spoke hstage)
      exact ⟨p, List.mem_append_right _ (sent_mem_deeds.mpr hp)⟩
    · exact ⟨p, List.mem_append_left _ hp⟩
  · rw [hmoves.begun hstage]
    exact Nat.le_add_left 1 _

theorem Asks.expire (h : d.Asks config fetch server log) : (Machine.expire d).Asks config fetch server log := by
  refine ⟨h.accounts.expire, h.regular.expire, ?_, ?_, ?_⟩
  · rw [← h.server_eq]
    show d.expire.server = d.server
    unfold Download.expire
    split <;> rfl
  · show d.expire.stage = .asking ∨ _
    unfold Download.expire
    split
    · exact Or.inl rfl
    · rename_i s hd
      exact h.spoke.imp_left fun hstage => by cases hd.symm.trans hstage
    · exact h.spoke
  · intro hstage
    change d.expire.stage = .handshake at hstage
    unfold Download.expire at hstage
    split at hstage
    · cases hstage
    · cases hstage
    · rename_i hd _
      exact absurd hstage hd

theorem asks_start (h : start config fetch (.ok server) = .ok d) : d.Asks config fetch server [] := by
  have haccounts := accounts_start h
  have hregular := (regular_start h).2.2
  cases start_eq h
  exact ⟨haccounts, hregular, rfl, Or.inl rfl, nofun⟩

theorem missed_start (h : start config fetch (.ok server) = .ok d) : d.missed = 0 := by
  cases start_eq h
  rfl

theorem waiting_of_step (hstep : Machine.step d [] = .wait) :
    d.stage = .handshake ∨ ∃ s, d.stage = .receiving s := by
  change d.step [] = .wait at hstep
  unfold Download.step at hstep
  cases hd : d.stage with
  | handshake => exact Or.inl rfl
  | receiving s => exact Or.inr ⟨s, rfl⟩
  | asking | silent | complete =>
      rw [hd] at hstep
      cases hstep
  | asked =>
      rw [hd] at hstep
      simp only [beginWait] at hstep
      split at hstep <;> cases hstep
  | answered first =>
      rw [hd] at hstep
      simp only [createFile] at hstep
      split at hstep
      · cases hstep
      · split at hstep
        · cases hstep
        · split at hstep
          · cases hstep
          · simp only [settle] at hstep
            split at hstep <;> cases hstep

/-- The count of a download is that of its waits in a row that have timed out. -/
theorem counts (hlimit : config.maxTries + 1 < limit32)
    (hcheck : FileRequest.check ⟨fetch.parameters, fetch.name⟩ = .ok ()) (server : Address) :
    Encounter.Counts config.maxTries (Asks config fetch server) missed where
  expire _ _ h := h.expire
  next _ _ _ _ _ _ h hstep := h.step hcheck hstep
  timer d log h hwait := by
    show missed d.expire ≤ missed d + 1
    unfold Download.expire missed
    rcases waiting_of_step hwait with hd | ⟨s, hd⟩
    · have := h.begun hd
      rw [hd]
      show d.retry.count ≤ d.retry.count - 1 + 1
      omega
    · rw [hd]
      exact Nat.zero_le _
  idle d hwait := by
    show missed d.expire = missed d
    have hwait' : d.step [] ≠ .wait := hwait
    unfold Download.step at hwait'
    unfold Download.expire
    split
    · rename_i hd
      simp only [hd] at hwait'
      exact absurd rfl hwait'
    · rename_i s hd
      simp only [hd] at hwait'
      exact absurd rfl hwait'
    · rfl
  woken d log queue d' queue' sent h hstep hwait := by
    have hmoves := step_moves h.accounts.tidy queue
    rw [show d.step queue = .next d' queue' sent from hstep] at hmoves
    exact hmoves.missed_le.2 (waiting_of_step hwait)
  kept d log queue d' queue' sent h hstep _ := by
    have hmoves := step_moves h.accounts.tidy queue
    rw [show d.step queue = .next d' queue' sent from hstep] at hmoves
    exact hmoves.missed_le.1
  gone d log queue count h hstop := by
    have hmoves := step_moves h.accounts.tidy queue
    rw [show d.step queue = .stop _ from hstop] at hmoves
    obtain ⟨hstage, hpatient⟩ := hmoves.gone
    have hretry := h.regular.retry
    have hcount := hretry.count
    have hmax := hretry.maxTries
    have hgone : d.step queue = .fail (.peerSilent config.maxTries) := by
      unfold Download.step
      rw [hstage]
      simp only [beginWait, hretry.giveUp hlimit hpatient, hmax]
    cases hgone.symm.trans hstop
    refine ⟨rfl, ?_, fun hwait => ?_⟩
    · unfold missed
      rw [hstage]
      exact Nat.not_lt.mp fun (hlt : d.retry.count < config.maxTries) => hpatient ⟨by omega, by omega⟩
    · rcases waiting_of_step hwait with hd | ⟨s, hd⟩ <;> cases hstage.symm.trans hd

end Download

/-! ## Silence -/

/-- The upload is about to wait, and the wait before has been answered, if there was one. -/
def Upload.BeginsWait (u : Upload) : Prop :=
  match u with
  | .serving s (.listening goal) => s.Stuck goal ∧ s.retry.count = 0
  | _ => False

instance : DecidablePred Upload.BeginsWait
  | .serving s (.listening goal) => inferInstanceAs (Decidable (s.Stuck goal ∧ s.retry.count = 0))
  | .opening .. | .refused .. | .serving _ .sending | .serving _ (.waiting _) | .serving _ (.overdue _)
  | .serving _ .done => inferInstanceAs (Decidable False)

theorem Upload.BeginsWait.serving {u : Upload} (h : u.BeginsWait) :
    ∃ s goal, u = .serving s (.listening goal) ∧ s.Stuck goal ∧ s.retry.count = 0 := by
  match u with
  | .serving s (.listening goal) => exact ⟨s, goal, rfl, h⟩

/-- The download is about to wait for the answer, and the wait before has not timed out. -/
def Download.BeginsWait (d : Download) : Prop :=
  match d.stage with
  | .asked => d.retry.count = 0
  | _ => False

instance (d : Download) : Decidable d.BeginsWait :=
  match h : d.stage with
  | .asked => decidable_of_iff (d.retry.count = 0) (by simp [Download.BeginsWait, h])
  | .asking | .handshake | .answered _ | .receiving _ | .silent _ | .complete _ =>
      isFalse (by simp [Download.BeginsWait, h])

theorem Download.BeginsWait.asked {d : Download} (h : d.BeginsWait) :
    d.stage = .asked ∧ d.retry.count = 0 := by
  unfold BeginsWait at h
  split at h
  · rename_i hstage
    exact ⟨hstage, h⟩
  · exact h.elim

/-- The packet that an upload reminds its client with. -/
def Upload.Reminds (u : Upload) (p : Packet) : Prop := ∃ s activity, u = .serving s activity ∧ s.Reminds p

namespace Scenario.Encounter

variable {config : Config} {faults : FaultModel}

/-- Nothing is left to be read. -/
structure Unheard {σ : Type} (e : Encounter σ) : Prop where
  running : e.station.result = none
  empty : e.station.queue = []

theorem upload_gives_up (hlimit : config.maxTries + 1 < limit32) {request : FileRequest} {client : Address}
    {source : Source} {e : Encounter Upload}
    (h : Reaches .up (start (.start config request client source) faults) e) (hunheard : e.Unheard)
    (hbegins : e.station.machine.BeginsWait) :
    ∃ p, e.station.machine.Reminds p ∧ e.GivesUp config.maxTries p client := by
  obtain ⟨hsteady, -⟩ := upholds (Upload.Steady config client) (.opening request source [])
    (fun _ _ h => h.expire) (fun _ _ _ _ _ _ h hstep => h.step hstep) h
  obtain ⟨hfits, hsure⟩ := sent_of_running h hunheard.running
  obtain ⟨s, goal, hmachine, hstuck, hcount⟩ := hbegins.serving
  rw [hmachine] at hsteady
  cases hsteady with
  | serving _ _ _ hkept hclient hretry _ hspoke =>
      obtain ⟨p, hreminds, hpayload, hritual⟩ := Serving.ritual hkept hstuck hretry.maxTries hlimit
      obtain ⟨q, hq⟩ := hspoke
      have hshort : p.payload.length ≤ Packet.maxPayload := by
        rcases hpayload with hnil | ⟨q, hq, hsame⟩
        · rw [hnil]
          exact Nat.zero_le _
        · rw [← hsame]
          exact hfits q hq
      rw [hclient] at hritual
      refine ⟨p, ⟨s, _, hmachine, hreminds⟩,
        hritual.gives_up hshort ⟨hunheard.running, hunheard.empty, hsure q hq⟩ ?_⟩
      exact ⟨s, hmachine, .refl s, hcount⟩

theorem download_gives_up (hlimit : config.maxTries + 1 < limit32) {fetch : Fetch} {server : Address}
    {d : Download} (hstart : Download.start config fetch (.ok server) = .ok d) {e : Encounter Download}
    (h : Reaches .up (start d faults) e) (hunheard : e.Unheard) (hbegins : e.station.machine.BeginsWait) :
    e.GivesUp config.maxTries d.request.toPacket server := by
  obtain ⟨-, hcheck, -⟩ := Download.regular_start hstart
  obtain ⟨hasks, -⟩ := upholds (Download.Asks config fetch server) (Download.asks_start hstart)
    (fun _ _ h => h.expire) (fun _ _ _ _ _ _ h hstep => h.step hcheck hstep) h
  obtain ⟨-, hsure⟩ := sent_of_running h hunheard.running
  obtain ⟨hstage, hcount⟩ := hbegins.asked
  have hrequest : e.station.machine.request = d.request := by
    rw [hasks.regular.request_eq, (Download.asks_start hstart).regular.request_eq]
  rcases hasks.spoke with hasking | ⟨q, hq⟩
  · cases hstage.symm.trans hasking
  · have hritual := Download.ritual hasks.regular.retry.maxTries hlimit
    rw [hrequest, hasks.server_eq] at hritual
    refine hritual.gives_up ?_ ⟨hunheard.running, hunheard.empty, hsure q hq⟩
      ⟨hstage, ⟨rfl, rfl, rfl⟩, hcount⟩
    rw [(Download.asks_start hstart).regular.request_eq]
    exact FileRequest.length_toPayload hcheck

/-- **A peer that keeps silent is given up in time, and no other is.**  From the begin of any first wait in
a row on, an upload and a download that are left alone wait as often as the settings allow, each time in
vain, send the same packet after each of these waits, and end; and they end so only after these waits. -/
theorem silence_given_up (htries : config.maxTries < limit32 - 1) (faults : FaultModel) :
    (∀ request client source,
      (∀ e, Reaches .up (start (Upload.start config request client source) faults) e → e.Unheard →
        e.station.machine.BeginsWait →
        ∃ p, e.station.machine.Reminds p ∧ e.GivesUp config.maxTries p client) ∧
      (start (Upload.start config request client source) faults).Perseveres config.maxTries) ∧
    ∀ fetch server d, Download.start config fetch (.ok server) = .ok d →
      (∀ e, Reaches .up (start d faults) e → e.Unheard → e.station.machine.BeginsWait →
        e.GivesUp config.maxTries d.request.toPacket server) ∧
      (start d faults).Perseveres config.maxTries := by
  have hlimit : config.maxTries + 1 < limit32 := by omega
  refine ⟨fun request client source => ⟨fun e hreach hunheard hbegins => ?_, ?_⟩,
    fun fetch server d hstart => ⟨fun e hreach hunheard hbegins => ?_, ?_⟩⟩
  · exact upload_gives_up hlimit hreach hunheard hbegins
  · exact (Upload.counts hlimit client).perseveres (.opening request source []) rfl
  · exact download_gives_up hlimit hstart hreach hunheard hbegins
  · obtain ⟨-, hcheck, -⟩ := Download.regular_start hstart
    exact (Download.counts hlimit hcheck server).perseveres (Download.asks_start hstart)
      (Download.missed_start hstart)

/-- A client hears nothing from the server, and an upload of a letter nothing from the client. -/
theorem letter_given_up : ∃ (e : Encounter Upload) (p : Packet) (d : Download) (e' : Encounter Download),
    Reaches .up (start (.start { maxTries := 1 } letterRequest ⟨"client", 0⟩
      (.contents (List.replicate 900 65))) (.ofConfig {})) e ∧
    sentNumbers e.log = [(.fnameOk, 0), (.data, 1), (.data, 2)] ∧ e.station.machine.BeginsWait ∧
    e.station.machine.Reminds p ∧ e.GivesUp 1 p ⟨"client", 0⟩ ∧
    Download.start { maxTries := 1 } letterFetch (.ok ⟨"server", 0⟩) = .ok d ∧
    Reaches .up (start d (.ofConfig {})) e' ∧ e'.station.machine.BeginsWait ∧
    e'.GivesUp 1 d.request.toPacket ⟨"server", 0⟩ := by
  obtain ⟨hupload, hdownload⟩ := @silence_given_up { maxTries := 1 } (by decide) (.ofConfig {})
  obtain ⟨d, hstart⟩ : ∃ d, Download.start { maxTries := 1 } letterFetch (.ok ⟨"server", 0⟩) = .ok d :=
    ⟨_, rfl⟩
  have hsends : ((start (Upload.start { maxTries := 1 } letterRequest ⟨"client", 0⟩
      (.contents (List.replicate 900 65))) (.ofConfig {})).run .up (List.replicate 6 .step)).any
      (fun e => e.station.result.isNone && e.station.queue.isEmpty &&
        decide (e.station.machine.BeginsWait) &&
        decide (sentNumbers e.log = [(.fnameOk, 0), (.data, 1), (.data, 2)])) = true := by
    decide +kernel
  have hasks : ((start d (.ofConfig {})).run .up [.step]).any
      (fun e => e.station.result.isNone && e.station.queue.isEmpty &&
        decide (e.station.machine.BeginsWait)) = true := by
    cases hstart
    decide +kernel
  obtain ⟨e, hrun, hgood⟩ := (Option.any_eq_true _ _).mp hsends
  obtain ⟨e', hrun', hgood'⟩ := (Option.any_eq_true _ _).mp hasks
  simp only [Bool.and_eq_true, Option.isNone_iff_eq_none, List.isEmpty_iff, decide_eq_true_eq]
    at hgood hgood'
  obtain ⟨⟨⟨hrunning, hempty⟩, hbegins⟩, hlog⟩ := hgood
  obtain ⟨⟨hrunning', hempty'⟩, hbegins'⟩ := hgood'
  have hreach := reaches_of_run .refl hrun
  have hreach' := reaches_of_run .refl hrun'
  obtain ⟨p, hreminds, hgives⟩ := (hupload _ _ _).1 e hreach ⟨hrunning, hempty⟩ hbegins
  have hgives' := (hdownload _ _ d hstart).1 e' hreach' ⟨hrunning', hempty'⟩ hbegins'
  exact ⟨e, p, d, e', hreach, hlog, hbegins, hreminds, hgives, hstart, hreach', hbegins', hgives'⟩

end Scenario.Encounter

end SelectiveReject
