import SelectiveReject.Proofs.Echoes
import SelectiveReject.Proofs.Patience

/-!
# Noise leaves no trace

As long as no time passes, an upload and a download that read noise besides what counts send what they send
without it, and end as they end without it.  An upload that listens reads all that there is, and passes over
noise on the way.  A download that waits for the answer is set back to where the wait begins:

```
upload      waiting ─→ listening ─ noise ─→ listening ─→ waiting
download    handshake ─ noise ─→ asked ─→ handshake
```

In both cases the wait that has begun is the first in a row again, as it was before.
-/

namespace SelectiveReject

open Scenario Arrival

/-! ## Steps that do not look further than one datagram -/

namespace Move

variable {σ : Type}

/-- What a machine does does not depend on what is in the queue. -/
def Blind (f : List Arrival → Move σ) : Prop :=
  (∃ result, ∀ queue, f queue = .stop result) ∨ ∃ m sent, ∀ queue, f queue = .next m queue sent

/-- A machine makes the same move whether it finds the whole queue, or only what counts of it. -/
inductive Alike [Hearing σ] (peer : Option Address) : List Arrival → Move σ → Move σ → Prop
  | stop (queue : List Arrival) (result : Except Stop Statistics) :
      Alike peer queue (.stop result) (.stop result)
  | wait : Alike peer [] .wait .wait
  | pass (queue : List Arrival) (m : σ) (sent : List Packet) (hpeer : Hearing.listensTo m = peer) :
      Alike peer queue (.next m queue sent) (.next m (heard peer queue) sent)
  | read (x : Arrival) (queue : List Arrival) (m : σ) (sent : List Packet) (hvalid : x.Valid peer)
      (hpeer : Hearing.listensTo m = x.names peer) :
      Alike peer (x :: queue) (.next m queue sent) (.next m (heard (x.names peer) queue) sent)

variable [Hearing σ] {peer : Option Address}

theorem Blind.alike {f : List Arrival → Move σ} (h : Blind f) (queue : List Arrival)
    (hpeer : ∀ m sent, f queue = .next m queue sent → Hearing.listensTo m = peer) :
    Alike peer queue (f queue) (f (heard peer queue)) := by
  rcases h with ⟨result, hstop⟩ | ⟨m, sent, hnext⟩
  · rw [hstop, hstop]
    exact .stop queue result
  · rw [hnext, hnext]
    exact .pass queue m sent (hpeer m sent (hnext queue))

theorem Blind.alike_read {f : List Arrival → Move σ} (h : Blind f) (x : Arrival) (queue : List Arrival)
    (hvalid : x.Valid peer)
    (hpeer : ∀ m sent, f queue = .next m queue sent → Hearing.listensTo m = x.names peer) :
    Alike peer (x :: queue) (f queue) (f (heard (x.names peer) queue)) := by
  rcases h with ⟨result, hstop⟩ | ⟨m, sent, hnext⟩
  · rw [hstop, hstop]
    exact .stop _ result
  · rw [hnext, hnext]
    exact .read x queue m sent hvalid (hpeer m sent (hnext queue))

/-- A machine that finds nothing makes one move. -/
theorem Alike.empty {move : Move σ}
    (h : ∀ m queue sent, move = .next m queue sent → queue = [] ∧ Hearing.listensTo m = peer) :
    Alike peer [] move move := by
  cases move with
  | wait => exact .wait
  | stop result => exact .stop [] result
  | next m queue sent =>
      obtain ⟨rfl, hpeer⟩ := h m queue sent rfl
      exact .pass [] m sent hpeer

/-- What is read of a queue in moves that are alike has no damage in it. -/
theorem Alike.next {queue queue₁ : List Arrival} {m : σ} {sent : List Packet} {move : Move σ}
    (h : Alike peer queue (.next m queue₁ sent) move) :
    ∃ read, queue = read ++ queue₁ ∧ Hearing.listensTo m = peerAfter peer read ∧ damage peer read = 0 ∧
      move = .next m (heard (Hearing.listensTo m) queue₁) sent := by
  cases h with
  | pass queue m sent hpeer => exact ⟨[], rfl, hpeer, rfl, by rw [hpeer]⟩
  | read x queue m sent hvalid hpeer =>
      refine ⟨[x], rfl, hpeer, ?_, by rw [hpeer]⟩
      rw [damage, damage, damage_of_valid hvalid]

theorem Alike.of_wait {queue : List Arrival} {move : Move σ} (h : Alike peer queue .wait move) :
    queue = [] := by
  cases h
  rfl

theorem Alike.of_stop {queue : List Arrival} {result : Except Stop Statistics} {move : Move σ}
    (h : Alike peer queue (.stop result) move) : move = .stop result := by
  cases h
  rfl

theorem next_of_damaged {count : Nat} {move : Move σ} {m : σ} {queue : List Arrival} {sent : List Packet}
    (h : move.damaged count = .next m queue sent) :
    ∃ m₀, move = .next m₀ queue sent ∧ m = Hearing.damaged count m₀ := by
  match move with
  | .next m₀ _ _ =>
      cases h
      exact ⟨m₀, rfl, rfl⟩

theorem wait_of_damaged {count : Nat} {move : Move σ} (h : move.damaged count = .wait) : move = .wait := by
  match move with
  | .wait => rfl

theorem stop_of_damaged {count : Nat} {move : Move σ} {result : Except Stop Statistics}
    (h : move.damaged count = .stop result) :
    ∃ result', move = .stop result' ∧ result = result'.map (Statistics.damaged count) := by
  match move with
  | .stop result' =>
      cases h
      exact ⟨result', rfl, rfl⟩

end Move

/-! ## Uploads -/

namespace Serving

variable {s : Serving} {goal : Goal} {activity : Activity} {x : Arrival} {queue : List Arrival}

/-- What does not count is passed over. -/
theorem hear_noise (h : ¬ x.Valid (some s.client)) (goal : Goal) (queue : List Arrival) :
    s.hear goal x queue =
      .next (.serving (s.damaged (x.damage (some s.client))) (.listening goal)) queue [] := by
  have hfrom : x.From (some s.client) ↔ x.source = s.client := by
    simp [Arrival.From]
  unfold hear
  by_cases hsource : x.source = s.client
  · rw [if_neg (by simpa using hsource)]
    cases hp : x.packet with
    | ok p => exact absurd ⟨hfrom.mpr hsource, by rw [hp]; rfl⟩ h
    | error e =>
        by_cases hdamaged : x.Damaged
        · have hcorrupt := Arrival.packet_eq_corrupt_iff.mpr hdamaged
          rw [hp] at hcorrupt
          cases hcorrupt
          unfold Arrival.damage
          rw [if_pos ⟨hfrom.mpr hsource, hdamaged⟩]
          rfl
        · have hother : e ≠ .corrupt := fun he =>
            hdamaged (Arrival.packet_eq_corrupt_iff.mp (hp.trans (congrArg _ he)))
          unfold Arrival.damage
          rw [if_neg fun hboth => hdamaged hboth.2]
          cases e <;> first | rfl | exact absurd rfl hother
  · unfold Arrival.damage
    rw [if_pos hsource, if_neg fun hboth => hsource (hfrom.mp hboth.1)]
    rfl

theorem sendNext_blind (s : Serving) : Move.Blind s.sendNext := by
  unfold sendNext
  cases s.unread with
  | none => exact Or.inl ⟨_, fun _ => rfl⟩
  | some unread =>
      simp only
      split
      · exact Or.inr ⟨_, _, fun _ => rfl⟩
      · rename_i chunk rest hnil hchunk
        generalize s.window.addPane chunk s.window.current = added
        match added with
        | (.error e, _) => exact Or.inl ⟨_, fun _ => rfl⟩
        | (.ok (), _) => exact Or.inr ⟨_, _, fun _ => rfl⟩

theorem feedback_blind (s : Serving) (goal : Goal) (packet : Packet) :
    Move.Blind (s.feedback goal packet) := by
  unfold feedback
  cases packet.flag with
  | ack =>
      simp only
      generalize s.window.ackThrough packet.seq = passed
      match passed with
      | (.ok _, _) => exact Or.inr ⟨_, _, fun _ => rfl⟩
      | (.error (.abort _), _) => exact Or.inl ⟨_, fun _ => rfl⟩
      | (.error (.error e), _) =>
          cases e <;> first | exact Or.inl ⟨_, fun _ => rfl⟩ | exact Or.inr ⟨_, _, fun _ => rfl⟩
  | srej => exact Or.inr ⟨_, _, fun _ => rfl⟩
  | eofAck => exact Or.inr ⟨_, _, fun _ => rfl⟩
  | fname | fnameOk | endOfFile | data | srejData | timeoutData | fnameBad =>
      exact Or.inr ⟨_, _, fun _ => rfl⟩

theorem hear_blind (s : Serving) (goal : Goal) (x : Arrival) : Move.Blind (s.hear goal x) := by
  unfold hear
  split
  · exact Or.inr ⟨_, _, fun _ => rfl⟩
  · split
    · exact feedback_blind s goal _
    · exact Or.inr ⟨_, _, fun _ => rfl⟩
    · exact Or.inr ⟨_, _, fun _ => rfl⟩

theorem catchUp_blind (s : Serving) (goal : Goal) : Move.Blind (s.catchUp goal) := by
  unfold catchUp
  split
  · exact Or.inr ⟨_, _, fun _ => rfl⟩
  · exact Or.inr ⟨_, _, fun _ => rfl⟩
  · exact Or.inr ⟨_, _, fun _ => rfl⟩

/-- An upload reads noise, or does not notice it. -/
theorem step_alike (s : Serving) (activity : Activity) (queue : List Arrival)
    (hwake : ∀ goal, activity = .waiting goal → heard (some s.client) queue = [] → queue = []) :
    (∃ goal x rest, activity = .listening goal ∧ queue = x :: rest ∧ ¬ x.Valid (some s.client)) ∨
      Move.Alike (some s.client) queue (s.step queue activity)
        (s.step (heard (some s.client) queue) activity) := by
  have hclient : ∀ {queue m queue' sent}, s.step queue activity = .next m queue' sent →
      Hearing.listensTo m = some s.client := fun hstep =>
    congrArg some (Upload.steps_of_step (u := .serving s activity) hstep).client
  cases activity with
  | sending =>
      right
      have hblind : Move.Blind fun queue => s.step queue .sending := by
        unfold step
        simp only
        generalize s.window.isOpen = open'
        match open' with
        | .error a => exact Or.inl ⟨_, fun _ => rfl⟩
        | .ok true => exact sendNext_blind s
        | .ok false => exact Or.inr ⟨_, _, fun _ => rfl⟩
      exact hblind.alike queue fun m sent => hclient
  | listening goal =>
      cases queue with
      | nil =>
          refine Or.inr (.empty fun m queue' sent hstep => ⟨?_, hclient hstep⟩)
          have hturns := s.step_turns (.listening goal) []
          rw [hstep] at hturns
          cases hturns <;> rfl
      | cons x queue =>
          by_cases hvalid : x.Valid (some s.client)
          · right
            rw [heard_cons_valid hvalid]
            exact (hear_blind s goal x).alike_read x queue hvalid fun m sent hstep =>
              hclient (show s.step (x :: queue) (.listening goal) = _ from hstep)
          · exact Or.inl ⟨goal, x, queue, rfl, rfl, hvalid⟩
  | waiting goal =>
      right
      cases queue with
      | nil => exact .wait
      | cons x queue =>
          cases hheard : heard (some s.client) (x :: queue) with
          | nil => cases hwake goal rfl hheard
          | cons y rest =>
              show Move.Alike _ _ (Move.next _ _ _) (Move.next _ (y :: rest) _)
              rw [← hheard]
              exact .pass (x :: queue) _ [] rfl
  | overdue goal => exact Or.inr ((catchUp_blind s goal).alike queue fun m sent => hclient)
  | done => exact Or.inr (.stop queue _)

end Serving

/-- The upload in the first wait in a row. -/
def Serving.rested (s : Serving) : Serving := { s with retry := { s.retry with count := 1 } }

/-- An upload that has nothing to send begins the first wait in a row when it has read everything. -/
theorem Serving.listening_rested {s : Serving} {goal : Goal} (count : Nat) (hstuck : s.Stuck goal)
    (hcount : s.retry.count = 0) (hpatient : 1 ≤ s.retry.maxTries) :
    Machine.step (Upload.serving (s.damaged count) (.listening goal)) [] =
      .next (.serving (s.rested.damaged count) (.waiting goal)) [] [] := by
  have hpatient' : (s.damaged count).retry.Patient :=
    ⟨show s.retry.count < s.retry.maxTries by omega, show s.retry.count + 1 < limit32 by
      rw [hcount]
      decide⟩
  show (s.damaged count).heardAll goal = _
  rw [Serving.heardAll_stuck (s := s.damaged count) hstuck, Serving.beginWait,
    Retry.attempt_eq hpatient']
  show Move.next (Upload.serving
    { s.damaged count with retry := { s.retry with count := s.retry.count + 1 } } _) [] [] = _
  rw [hcount]
  rfl

namespace Upload

variable {u u' : Upload} {queue queue' : List Arrival} {count : Nat}

/-- How an upload that reads only what counts follows one that reads everything. -/
inductive Trails (count : Nat) : Upload → List Arrival → Upload → List Arrival → Prop
  /-- They do the same, with or without noise in the queue; noise alone does not end a wait. -/
  | along (u : Upload) (queue : List Arrival) (hserves : u.Serves ∨ count = 0)
      (hwake : ∀ s goal, u = .serving s (.waiting goal) → heard (some s.client) queue = [] → queue = []) :
      Trails count (u.damaged count) queue u (heard (some u.client) queue)
  /-- Noise has ended the wait of the one, and the other is in a first wait. -/
  | roused (s : Serving) (goal : Goal) (queue : List Arrival) (hsome : queue ≠ [])
      (hnoise : heard (some s.client) queue = []) (hstuck : s.Stuck goal) (hpatient : 1 ≤ s.retry.maxTries) :
      Trails count (.serving (s.damaged count) (.waiting goal)) queue (.serving s.rested (.waiting goal)) []
  | dozing (s : Serving) (goal : Goal) (queue : List Arrival) (hnoise : heard (some s.client) queue = [])
      (hstuck : s.Stuck goal) (hcount : s.retry.count = 0) (hpatient : 1 ≤ s.retry.maxTries) :
      Trails count (.serving (s.damaged count) (.listening goal)) queue (.serving s.rested (.waiting goal)) []

/-- Noise makes no difference to an upload that does not wait. -/
theorem Trails.awake (s : Serving) (activity : Activity) (hawake : ∀ goal, activity ≠ .waiting goal)
    (count : Nat) (queue : List Arrival) : Trails count (.serving (s.damaged count) activity) queue
      (.serving s activity) (heard (some s.client) queue) := by
  refine .along (.serving s activity) queue (Or.inl ⟨s, activity, rfl⟩) ?_
  rintro s' goal hs'
  cases hs'
  exact absurd rfl (hawake goal)

theorem client_damaged (u : Upload) (count : Nat) : (u.damaged count).client = u.client := by
  cases u <;> rfl

theorem damaged_zero (u : Upload) : u.damaged 0 = u := by
  cases u <;> rfl

theorem step_damaged (hserves : u.Serves ∨ count = 0) :
    Machine.step (u.damaged count) queue = (Machine.step u queue).damaged count := by
  rcases hserves with ⟨s, activity, rfl⟩ | rfl
  · exact Serving.step_damaged count activity
  · rw [damaged_zero]
    generalize Machine.step u queue = move
    match move with
    | .wait => rfl
    | .stop (.ok t) => rfl
    | .stop (.error e) => rfl
    | .next m queue sent => exact congrArg (Move.next · queue sent) (damaged_zero m).symm

theorem openFile_blind (config : Config) (request : FileRequest) (client : Address)
    (unread : Option Bytes) : Move.Blind (openFile config request client unread) := by
  unfold openFile
  cases SendWindow.make request.parameters.window.toNat with
  | error e => exact Or.inl ⟨_, fun _ => rfl⟩
  | ok window => exact Or.inr ⟨_, _, fun _ => rfl⟩

/-- An upload reads noise, or does not notice it. -/
theorem step_alike (u : Upload) (queue : List Arrival)
    (hwake : ∀ s goal, u = .serving s (.waiting goal) → heard (some s.client) queue = [] → queue = []) :
    (∃ s goal x rest, u = .serving s (.listening goal) ∧ queue = x :: rest ∧ ¬ x.Valid (some s.client)) ∨
      Move.Alike (some u.client) queue (Machine.step u queue)
        (Machine.step u (heard (some u.client) queue)) := by
  have hclient : ∀ {m queue' sent}, Machine.step u queue = .next m queue' sent →
      Hearing.listensTo m = some u.client := fun hstep => congrArg some (steps_of_step hstep).client
  match u with
  | .opening _ request client .missing => exact Or.inr (.pass queue _ _ rfl)
  | .opening config request client .unreadable =>
      exact Or.inr ((openFile_blind config request client none).alike queue fun m sent => hclient)
  | .opening config request client (.contents bytes) =>
      exact Or.inr ((openFile_blind config request client (some bytes)).alike queue fun m sent => hclient)
  | .refused request client => exact Or.inr (.stop queue _)
  | .serving s activity =>
      rcases s.step_alike activity queue (fun goal hwaiting => hwake s goal (by rw [hwaiting])) with
        ⟨goal, x, rest, rfl, hqueue, hnoise⟩ | halike
      · exact Or.inl ⟨s, goal, x, rest, rfl, hqueue, hnoise⟩
      · exact Or.inr halike

/-- A wait is begun with nothing left to read. -/
theorem empty_of_waiting {s : Serving} {goal : Goal} {sent : List Packet}
    (h : Machine.step u queue = .next (.serving s (.waiting goal)) queue' sent) : queue' = [] := by
  match u with
  | .refused .. => cases h
  | .opening config request client source =>
      rcases step_fresh config request client source queue with ⟨size, hfail⟩ | hrefused | ⟨s, hs, -⟩
      · cases hfail.symm.trans h
      · cases hrefused.symm.trans h
      · cases hs.symm.trans h
  | .serving s' activity =>
      have hturns := s'.step_turns activity queue
      rw [show s'.step queue activity = .next (.serving s (.waiting goal)) queue' sent from h] at hturns
      cases hturns with
      | await => rfl
      | hear _ _ _ _ _ _ _ hactivity => rcases hactivity with hactivity | hactivity <;> cases hactivity

theorem serves_next {m : Upload} {sent : List Packet} (hserves : u.Serves)
    (h : Machine.step u queue = .next m queue' sent) : m.Serves := by
  obtain ⟨s, activity, rfl⟩ := hserves
  have hturns := s.step_turns activity queue
  rw [show s.step queue activity = .next m queue' sent from h] at hturns
  cases hturns <;> exact ⟨_, _, rfl⟩

theorem Trails.next {m : Upload} {queue₁ : List Arrival} {sent : List Packet}
    (h : Trails count u queue u' queue') (hstep : Machine.step u queue = .next m queue₁ sent) :
    ∃ read, queue = read ++ queue₁ ∧ Hearing.listensTo m = peerAfter (Hearing.listensTo u) read ∧
      ((sent = [] ∧ Trails (count + damage (Hearing.listensTo u) read) m queue₁ u' queue') ∨
        ∃ m' queue₁', Machine.step u' queue' = .next m' queue₁' sent ∧
          m = m'.damaged (count + damage (Hearing.listensTo u) read) ∧
          Trails (count + damage (Hearing.listensTo u) read) m queue₁ m' queue₁') := by
  cases h with
  | along _ _ hserves hwake =>
      rw [step_damaged hserves] at hstep
      obtain ⟨m₀, hstep₀, (rfl : m = m₀.damaged count)⟩ := Move.next_of_damaged hstep
      have hlistens : Hearing.listensTo (u'.damaged count) = some u'.client :=
        congrArg some (client_damaged u' count)
      rw [hlistens, show Hearing.listensTo (m₀.damaged count) = some m₀.client from
        congrArg some (client_damaged m₀ count)]
      rcases step_alike u' queue hwake with ⟨s, goal, x, rest, rfl, rfl, hnoise⟩ | halike
      · cases (Serving.hear_noise hnoise goal rest).symm.trans hstep₀
        refine ⟨[x], rfl, rfl, Or.inl ⟨rfl, ?_⟩⟩
        have htrails := Trails.awake s (.listening goal) nofun (count + x.damage (some s.client)) queue₁
        show Trails _ (.serving ((s.damaged _).damaged count) _) _ _ (heard (some s.client) (x :: queue₁))
        rw [heard_cons_invalid hnoise, Serving.damaged_damaged, Nat.add_comm _ count]
        exact htrails
      · rw [hstep₀] at halike
        obtain ⟨read, hqueue, hpeer, hdamage, hnext⟩ := halike.next
        refine ⟨read, hqueue, hpeer, Or.inr ⟨_, _, hnext, ?_, ?_⟩⟩
        · rw [hdamage]
          rfl
        · rw [hdamage]
          refine .along _ queue₁ (hserves.imp_left fun hserves => serves_next hserves hstep₀) ?_
          rintro s goal rfl _
          exact empty_of_waiting hstep₀
  | roused s goal _ hsome hnoise hstuck hpatient =>
      obtain ⟨x, rest, rfl⟩ := List.exists_cons_of_ne_nil hsome
      cases hstep
      exact ⟨[], rfl, rfl, Or.inl ⟨rfl, .dozing { s with retry := s.retry.reset } goal _ hnoise hstuck rfl
        hpatient⟩⟩
  | dozing s goal _ hnoise hstuck hcount hpatient =>
      cases queue with
      | nil =>
          cases (Serving.listening_rested count hstuck hcount hpatient).symm.trans hstep
          refine ⟨[], rfl, rfl, Or.inl ⟨rfl, ?_⟩⟩
          exact .along (.serving s.rested (.waiting goal)) [] (Or.inl ⟨_, _, rfl⟩) fun _ _ _ _ => rfl
      | cons x rest =>
          have hnot : ¬ x.Valid (some s.client) := not_valid_of_heard_nil hnoise
          cases (Serving.hear_noise (s := s.damaged count) hnot goal rest).symm.trans hstep
          refine ⟨[x], rfl, rfl, Or.inl ⟨rfl, ?_⟩⟩
          rw [heard_cons_invalid hnot] at hnoise
          rw [Serving.damaged_damaged]
          exact .dozing s goal _ hnoise hstuck hcount hpatient

theorem follows : Follows Trails where
  peer h := by
    cases h with
    | along => exact client_damaged _ _
    | roused | dozing => rfl
  patience count u := by cases u <;> rfl
  listens count u := congrArg some (client_damaged u count)
  rests count u hwait := by
    obtain ⟨-, s, goal, rfl⟩ := waiting_of_step hwait
    rfl
  wait := by
    intro count u queue u' queue' h hwait
    obtain ⟨rfl, s, goal, hu⟩ := waiting_of_step hwait
    cases h with
    | along _ _ hserves hwake =>
        obtain ⟨s', rfl⟩ : ∃ s', u' = .serving s' (.waiting goal) := by
          match u' with
          | .serving s' activity =>
              cases hu
              exact ⟨s', rfl⟩
        exact ⟨rfl, rfl, rfl, rfl⟩
    | roused _ _ _ hsome => exact absurd rfl hsome
    | dozing => cases hu
  stop := by
    intro count u queue u' queue' result h hstop
    cases h with
    | along _ _ hserves hwake =>
        rw [step_damaged hserves] at hstop
        obtain ⟨result, hstop₀, rfl⟩ := Move.stop_of_damaged hstop
        rcases step_alike u' queue hwake with ⟨s, goal, x, rest, rfl, rfl, hnoise⟩ | halike
        · cases (Serving.hear_noise hnoise goal rest).symm.trans hstop₀
        · rw [hstop₀] at halike
          exact ⟨result, halike.of_stop, rfl, rfl⟩
    | roused s goal _ hsome =>
        obtain ⟨x, rest, rfl⟩ := List.exists_cons_of_ne_nil hsome
        cases hstop
    | dozing s goal _ hnoise hstuck hcount hpatient =>
        cases queue with
        | nil => cases (Serving.listening_rested count hstuck hcount hpatient).symm.trans hstop
        | cons x rest =>
            cases (Serving.hear_noise (s := s.damaged count) (not_valid_of_heard_nil hnoise) goal
              rest).symm.trans hstop
  next h hstep := h.next hstep

/-- The waits of the upload, if there were any, have not timed out. -/
def Calm : Upload → Prop
  | .serving s (.waiting goal) => s.Stuck goal ∧ s.retry.count = 1 ∧ 1 ≤ s.retry.maxTries
  | .serving _ (.overdue _) => False
  | .serving s _ => s.retry.count = 0
  | .opening .. | .refused .. => True

/-- A wait is begun when nothing else can be done. -/
theorem stuck_of_heardAll {s s' : Serving} {goal goal' : Goal} {sent : List Packet}
    (h : s.heardAll goal = .next (.serving s' (.waiting goal')) queue sent) : s.Stuck goal := by
  unfold Serving.heardAll at h
  split at h
  · cases h
  · exact Or.inl rfl
  · split at h
    · cases h
    · cases h
    · rename_i hclosed
      exact Or.inr ⟨rfl, hclosed⟩

theorem Calm.step {m : Upload} {sent : List Packet} (h : u.Calm)
    (hstep : Machine.step u queue = .next m queue' sent) : m.Calm := by
  match u with
  | .refused .. => cases hstep
  | .opening config request client source =>
      rcases step_fresh config request client source queue with
        ⟨size, hfail⟩ | hrefused | ⟨s, hserving, hfresh⟩
      · cases hfail.symm.trans hstep
      · cases hrefused.symm.trans hstep
        trivial
      · cases hserving.symm.trans hstep
        exact congrArg Retry.count hfresh.retry
  | .serving s activity =>
      have hturns := s.step_turns activity queue
      have hstep' : s.step queue activity = .next m queue' sent := hstep
      rw [hstep'] at hturns
      cases hturns with
      | piece _ _ _ hstays | announce _ _ _ hstays => exact (congrArg Retry.count hstays.retry).trans h
      | hear _ _ _ _ _ _ hstays hactivity =>
          rcases hactivity with rfl | rfl <;> exact (congrArg Retry.count hstays.retry).trans h
      | closed | goOn => exact h
      | await goal hgoal hpatient =>
          have hcount : s.retry.count = 0 := h
          have hstuck : s.Stuck goal := stuck_of_heardAll hstep'
          exact ⟨hstuck, congrArg (· + 1) hcount, Nat.lt_of_le_of_lt (Nat.zero_le _) hpatient⟩
      | wake => rfl
      | again => exact h.elim

theorem Calm.trails (h : u.Calm) (hwait : Machine.step u [] = .wait) (count : Nat) (queue : List Arrival) :
    Trails count (u.damaged count) queue u (heard (some u.client) queue) := by
  obtain ⟨-, s, goal, rfl⟩ := waiting_of_step hwait
  obtain ⟨hstuck, hcount, hpatient⟩ := h
  by_cases hnoise : heard (some s.client) queue = [] ∧ queue ≠ []
  · have hrested : s.rested = s := by
      show { s with retry := { s.retry with count := 1 } } = s
      rw [← hcount]
    have hroused := @Trails.roused count s goal queue hnoise.2 hnoise.1 hstuck hpatient
    rw [hrested] at hroused
    show Trails count (.serving (s.damaged count) _) queue (.serving s _) (heard (some s.client) queue)
    rw [hnoise.1]
    exact hroused
  · refine .along (.serving s (.waiting goal)) queue (Or.inl ⟨s, _, rfl⟩) ?_
    rintro s' goal' hs' hnil
    cases hs'
    exact Decidable.byContradiction fun hsome => hnoise ⟨hnil, hsome⟩

theorem settles : Trial.Settles load Trails Calm where
  bounded := {
    pos := load_pos
    less := fun _ _ _ _ _ hstep => (steps_of_step hstep).load
    effort := load_le_effort }
  follows := follows
  calm _ _ _ _ _ h hstep := h.step hstep
  begins count _ queue h hwait := h.trails hwait count queue

end Upload

/-! ## Downloads -/

namespace Download

variable {d d' m : Download} {queue queue' : List Arrival} {x : Arrival} {count : Nat} {sent : List Packet}

/-- How a download goes on. -/
inductive Proceeds (d : Download) : List Arrival → Download → List Arrival → Prop
  | ask (queue : List Arrival) (m : Download) (hstage : d.stage = .asking) (hm : m.stage = .asked)
      (hretry : m.retry = d.retry) : Proceeds d queue m queue
  | await (queue : List Arrival) (hstage : d.stage = .asked) (hpatient : d.retry.Patient) :
      Proceeds d queue
        { d with retry := { d.retry with count := d.retry.count + 1 }, stage := .handshake } queue
  | hear (x : Arrival) (queue : List Arrival) (m : Download) (hstage : d.stage = .handshake)
      (hcount : m.retry.count = 0) (hpeer : m.listensTo = x.names none)
      (hm : m.stage = .asked ∨ ∃ first, m.stage = .answered first) : Proceeds d (x :: queue) m queue
  | create (queue : List Arrival) (m : Download) (first : Option Packet) (hstage : d.stage = .answered first)
      (hpeer : m.peer = d.peer) (hm : m.Alive) : Proceeds d queue m queue
  | take (x : Arrival) (queue : List Arrival) (m : Download) (s : Session) (hstage : d.stage = .receiving s)
      (hpeer : m.peer = d.peer) (hm : m.Alive) : Proceeds d (x :: queue) m queue

theorem settle_next {reply : Except Stop Reply} (h : d.settle queue reply = .next m queue' sent) :
    queue' = queue ∧ m.peer = d.peer ∧ m.Alive := by
  match reply with
  | .ok r =>
      cases h
      refine ⟨rfl, rfl, ?_⟩
      cases hcomplete : r.complete with
      | false => exact Or.inl ⟨r.session, rfl⟩
      | true => exact Or.inr ⟨r.session, rfl⟩

/-- The first packet that opens tells a download whom it listens to. -/
theorem answer_next (h : d.answer x queue = .next m queue' sent) : queue' = queue ∧ m.retry.count = 0 ∧
    m.listensTo = x.names none ∧ (m.stage = .asked ∨ ∃ first, m.stage = .answered first) := by
  unfold answer at h
  rcases read_eq { d with retry := d.retry.reset } x with ⟨p, hp, hread⟩ | ⟨t, hother, hread, -⟩
  · simp only [hread] at h
    split at h
    · cases h
    · rename_i hbad
      split at h
      · rename_i hok
        cases h
        refine ⟨rfl, rfl, ?_, Or.inr ⟨_, rfl⟩⟩
        simp only [listensTo, Arrival.names, hp, if_pos (show p.Opens from Or.inl hok)]
      · rename_i hok
        split at h
        · rename_i hfile
          cases h
          refine ⟨rfl, rfl, ?_, Or.inr ⟨_, rfl⟩⟩
          simp only [listensTo, Arrival.names, hp, if_pos (show p.Opens from Or.inr hfile)]
        · rename_i hfile
          cases h
          refine ⟨rfl, rfl, ?_, Or.inl rfl⟩
          have hopens : ¬ p.Opens := fun hopens => hopens.elim hok hfile
          simp only [listensTo, Arrival.names, hp, if_neg hopens]
  · simp only [hread] at h
    cases h
    refine ⟨rfl, rfl, ?_, Or.inl rfl⟩
    unfold listensTo Arrival.names
    cases hp : x.packet with
    | ok p => exact absurd hp (hother p)
    | error e => rfl

theorem createFile_next {first : Option Packet} (h : d.createFile first queue = .next m queue' sent) :
    queue' = queue ∧ m.peer = d.peer ∧ m.Alive := by
  unfold createFile at h
  split at h
  · cases h
  · split at h
    · cases h
    · split at h
      · cases h
        exact ⟨rfl, rfl, Or.inl ⟨_, rfl⟩⟩
      · exact settle_next h

theorem receive_next {s : Session} (hstage : d.stage = .receiving s)
    (h : d.receive s x queue = .next m queue' sent) : queue' = queue ∧ m.peer = d.peer ∧ m.Alive := by
  unfold receive at h
  split at h
  · cases h
    exact ⟨rfl, rfl, Or.inl ⟨s, hstage⟩⟩
  · rcases read_eq d x with ⟨p, hp, hread⟩ | ⟨t, hother, hread, -⟩
    · simp only [hread] at h
      exact settle_next h
    · simp only [hread] at h
      cases h
      exact ⟨rfl, rfl, Or.inl ⟨s, hstage⟩⟩

theorem step_proceeds (h : Machine.step d queue = .next m queue' sent) : d.Proceeds queue m queue' := by
  change d.step queue = _ at h
  unfold step at h
  cases hstage : d.stage with
  | asking =>
      simp only [hstage] at h
      cases h
      exact .ask queue _ hstage rfl rfl
  | asked =>
      simp only [hstage] at h
      unfold beginWait at h
      by_cases hpatient : d.retry.Patient
      · rw [Retry.attempt_eq hpatient] at h
        cases h
        exact .await queue hstage hpatient
      · rcases Retry.attempt_of_not_patient hpatient with ⟨a, ha⟩ | ⟨r, hr⟩
        · rw [ha] at h
          cases h
        · rw [hr] at h
          cases h
  | handshake =>
      simp only [hstage] at h
      cases queue with
      | nil => cases h
      | cons x queue =>
          obtain ⟨rfl, hcount, hpeer, hm⟩ := answer_next h
          exact .hear x _ m hstage hcount hpeer hm
  | answered first =>
      simp only [hstage] at h
      obtain ⟨rfl, hpeer, hm⟩ := createFile_next h
      exact .create _ m first hstage hpeer hm
  | receiving s =>
      simp only [hstage] at h
      cases queue with
      | nil => cases h
      | cons x queue =>
          obtain ⟨rfl, hpeer, hm⟩ := receive_next hstage h
          exact .take x _ m s hstage hpeer hm
  | silent s | complete s =>
      simp only [hstage] at h
      cases h

/-- The steps of a download that are still to come when nothing arrives, before it waits or ends. -/
def rank : Stage → Nat
  | .asking => 3
  | .asked | .answered _ => 2
  | .handshake | .receiving _ | .silent _ | .complete _ => 1

/-- A bound on the steps that a download can take before it waits or has ended. -/
def load (d : Download) (queue : List Arrival) : Nat := 2 * queue.length + rank d.stage

/-- The waits of the download, if there were any, have not timed out. -/
def Calm (d : Download) : Prop :=
  match d.stage with
  | .handshake => d.retry.count = 1 ∧ 1 ≤ d.retry.maxTries
  | .asking | .asked => d.retry.count = 0
  | .answered _ | .receiving _ | .silent _ | .complete _ => True

theorem rank_bounds (stage : Stage) : 0 < rank stage ∧ rank stage ≤ 3 := by
  cases stage <;> exact ⟨Nat.succ_pos _, by simp [rank]⟩

theorem Alive.rank_eq (h : m.Alive) : rank m.stage = 1 := by
  rcases h with ⟨s, hs⟩ | ⟨s, hs⟩ <;> rw [hs] <;> rfl

theorem Alive.calm (h : m.Alive) : m.Calm := by
  unfold Calm
  rcases h with ⟨s, hs⟩ | ⟨s, hs⟩ <;> rw [hs] <;> trivial

theorem Alive.listensTo_eq (h : m.Alive) : m.listensTo = some m.peer := by
  unfold listensTo
  rcases h with ⟨s, hs⟩ | ⟨s, hs⟩ <;> rw [hs]

theorem Proceeds.load_lt (h : d.Proceeds queue m queue') : m.load queue' < d.load queue := by
  unfold load
  cases h with
  | ask _ _ hstage hm =>
      rw [hstage, hm]
      exact Nat.add_lt_add_left (show 2 < 3 by omega) _
  | await _ hstage =>
      rw [hstage]
      exact Nat.add_lt_add_left (show 1 < 2 by omega) _
  | hear _ _ _ hstage _ _ hm =>
      have hrank : rank m.stage = 2 := by
        rcases hm with hm | ⟨first, hm⟩ <;> rw [hm] <;> rfl
      rw [hrank, List.length_cons]
      have := (rank_bounds d.stage).1
      omega
  | create _ _ first hstage _ hm =>
      rw [hm.rank_eq, hstage]
      exact Nat.add_lt_add_left (show 1 < 2 by omega) _
  | take _ _ _ s _ _ hm =>
      rw [hm.rank_eq, List.length_cons]
      have := (rank_bounds d.stage).1
      omega

theorem Proceeds.calm (h : d.Proceeds queue m queue') (hcalm : d.Calm) : m.Calm := by
  cases h with
  | ask _ _ hstage hm hretry =>
      unfold Calm at hcalm ⊢
      rw [hstage] at hcalm
      rw [hm, hretry]
      exact hcalm
  | await _ hstage hpatient =>
      unfold Calm at hcalm
      rw [hstage] at hcalm
      exact ⟨congrArg (· + 1) hcalm, Nat.lt_of_le_of_lt (Nat.zero_le _) hpatient.1⟩
  | hear _ _ _ _ hcount _ hm =>
      unfold Calm
      rcases hm with hm | ⟨first, hm⟩
      · rw [hm]
        exact hcount
      · rw [hm]
        trivial
  | create _ _ _ _ _ hm | take _ _ _ _ _ _ hm => exact hm.calm

/-- A download listens to the same peer after a step that reads nothing. -/
theorem Proceeds.listens (h : d.Proceeds queue m queue) : m.listensTo = d.listensTo := by
  unfold listensTo
  cases h with
  | ask _ _ hstage hm => rw [hstage, hm]
  | await _ hstage => rw [hstage]
  | create _ _ _ hstage hpeer hm =>
      rw [hstage, ← hpeer]
      exact hm.listensTo_eq

theorem settle_blind (d : Download) (reply : Except Stop Reply) :
    Move.Blind fun queue => d.settle queue reply := by
  cases reply with
  | error e => exact Or.inl ⟨_, fun _ => rfl⟩
  | ok r => exact Or.inr ⟨_, _, fun _ => rfl⟩

theorem beginWait_blind (d : Download) : Move.Blind d.beginWait := by
  unfold beginWait
  generalize d.retry.attempt = attempt
  match attempt with
  | .error a => exact Or.inl ⟨_, fun _ => rfl⟩
  | .ok (false, retry) => exact Or.inl ⟨_, fun _ => rfl⟩
  | .ok (true, retry) => exact Or.inr ⟨_, _, fun _ => rfl⟩

theorem answer_blind (d : Download) (x : Arrival) : Move.Blind (d.answer x) := by
  unfold answer
  dsimp only
  generalize Download.read { d with retry := d.retry.reset } x = read
  match read with
  | (d', none) => exact Or.inr ⟨_, _, fun _ => rfl⟩
  | (d', some p) =>
      dsimp only
      split
      · exact Or.inl ⟨_, fun _ => rfl⟩
      · split
        · exact Or.inr ⟨_, _, fun _ => rfl⟩
        · split <;> exact Or.inr ⟨_, _, fun _ => rfl⟩

theorem createFile_blind (d : Download) (first : Option Packet) : Move.Blind (d.createFile first) := by
  unfold createFile
  split
  · exact Or.inl ⟨_, fun _ => rfl⟩
  · generalize ReorderBuffer.make d.request.parameters.window.toNat = made
    match made, first with
    | .error e, _ => exact Or.inl ⟨_, fun _ => rfl⟩
    | .ok buffer, none => exact Or.inr ⟨_, _, fun _ => rfl⟩
    | .ok buffer, some p => exact settle_blind d _

theorem receive_blind (d : Download) (s : Session) (x : Arrival) : Move.Blind (d.receive s x) := by
  unfold receive
  split
  · exact Or.inr ⟨_, _, fun _ => rfl⟩
  · generalize d.read x = read
    match read with
    | (d', none) => exact Or.inr ⟨_, _, fun _ => rfl⟩
    | (d', some p) => exact settle_blind d' _

/-- The download about to wait for the answer for the first time in a row. -/
def again (d : Download) : Download := { d with retry := d.retry.reset, stage := .asked }

theorem read_noise (h : x.packet.isOk = false) (d : Download) :
    d.read x = (d.damaged (if x.Damaged then 1 else 0), none) := by
  unfold read
  cases hp : x.packet with
  | ok p =>
      rw [hp] at h
      cases h
  | error e =>
      by_cases hdamaged : x.Damaged
      · have hcorrupt := Arrival.packet_eq_corrupt_iff.mpr hdamaged
        rw [hp] at hcorrupt
        cases hcorrupt
        rw [if_pos hdamaged]
        rfl
      · have hother : e ≠ .corrupt := fun he =>
          hdamaged (Arrival.packet_eq_corrupt_iff.mp (hp.trans (congrArg _ he)))
        rw [if_neg hdamaged]
        cases e <;> first | rfl | exact absurd rfl hother

/-- What holds no packet is no answer, and the wait for one begins anew. -/
theorem answer_noise (h : ¬ x.Valid none) (d : Download) (queue : List Arrival) :
    d.answer x queue = .next (d.again.damaged (x.damage none)) queue [] := by
  have hfrom : x.From none := nofun
  have hbad : x.packet.isOk = false := Bool.eq_false_iff.mpr fun hok => h ⟨hfrom, hok⟩
  unfold answer
  simp only [read_noise hbad, Arrival.damage, hfrom, true_and]
  rfl

/-- What does not count is passed over. -/
theorem receive_noise (h : ¬ x.Valid (some d.peer)) (s : Session) (queue : List Arrival) :
    d.receive s x queue = .next (d.damaged (x.damage (some d.peer))) queue [] := by
  have hfrom : x.From (some d.peer) ↔ x.source = d.peer := by
    simp [Arrival.From]
  unfold receive
  by_cases hsource : x.source = d.peer
  · have hbad : x.packet.isOk = false := Bool.eq_false_iff.mpr fun hok => h ⟨hfrom.mpr hsource, hok⟩
    rw [if_neg (by simpa using hsource)]
    simp only [read_noise hbad, Arrival.damage, hfrom.mpr hsource, true_and]
  · rw [if_pos hsource]
    unfold Arrival.damage
    rw [if_neg fun hboth => hsource (hfrom.mp hboth.1)]
    rfl

theorem listensTo_handshake (h : d.stage = .handshake) : d.listensTo = none := by
  unfold listensTo
  rw [h]

theorem listensTo_receiving {s : Session} (h : d.stage = .receiving s) : d.listensTo = some d.peer := by
  unfold listensTo
  rw [h]

theorem step_handshake (hstage : d.stage = .handshake) (x : Arrival) (queue : List Arrival) :
    Machine.step d (x :: queue) = d.answer x queue := by
  show d.step _ = _
  unfold step
  rw [hstage]

theorem step_receiving {s : Session} (hstage : d.stage = .receiving s) (x : Arrival) (queue : List Arrival) :
    Machine.step d (x :: queue) = d.receive s x queue := by
  show d.step _ = _
  unfold step
  rw [hstage]

/-- A download that reads its queue waits when there is nothing in it. -/
theorem alike_nil (hstage : d.stage = .handshake ∨ ∃ s, d.stage = .receiving s) (peer : Option Address) :
    Move.Alike peer [] (Machine.step d []) (Machine.step d []) := by
  have hwait : Machine.step d [] = .wait := by
    show d.step [] = _
    unfold step
    rcases hstage with hstage | ⟨s, hstage⟩ <;> rw [hstage]
  rw [hwait]
  exact .wait

/-- A download that does not wait for datagrams does not look at its queue. -/
theorem step_blind (hhandshake : d.stage ≠ .handshake) (hreceiving : ∀ s, d.stage ≠ .receiving s) :
    Move.Blind d.step := by
  unfold step
  cases hstage : d.stage with
  | asking => exact Or.inr ⟨_, _, fun _ => rfl⟩
  | asked => exact beginWait_blind d
  | answered first => exact createFile_blind d first
  | silent s | complete s => exact Or.inl ⟨_, fun _ => rfl⟩
  | handshake => exact absurd hstage hhandshake
  | receiving s => exact absurd hstage (hreceiving s)

/-- A download reads noise, or does not notice it. -/
theorem step_alike (d : Download) (queue : List Arrival) :
    (∃ x rest d₀, queue = x :: rest ∧ ¬ x.Valid d.listensTo ∧
      Machine.step d queue = .next (d₀.damaged (x.damage d.listensTo)) rest [] ∧
      (d₀ = d ∨ d.stage = .handshake ∧ d₀ = d.again)) ∨
      Move.Alike d.listensTo queue (Machine.step d queue) (Machine.step d (heard d.listensTo queue)) := by
  cases hstage : d.stage with
  | asking | asked | answered first | silent s | complete s =>
      have hblind : Move.Blind d.step := step_blind (by simp [hstage]) (by simp [hstage])
      exact Or.inr (hblind.alike queue fun m sent hstep => (step_proceeds hstep).listens)
  | handshake =>
      rw [listensTo_handshake hstage]
      cases queue with
      | nil => exact Or.inr (alike_nil (Or.inl hstage) none)
      | cons x rest =>
          rw [step_handshake hstage]
          by_cases hvalid : x.Valid none
          · right
            rw [heard_cons_valid hvalid, step_handshake hstage]
            exact (answer_blind d x).alike_read x rest hvalid fun m sent hnext => (answer_next hnext).2.2.1
          · exact Or.inl ⟨x, rest, d.again, rfl, hvalid, answer_noise hvalid d rest, Or.inr ⟨rfl, rfl⟩⟩
  | receiving s =>
      rw [listensTo_receiving hstage]
      cases queue with
      | nil => exact Or.inr (alike_nil (Or.inr ⟨s, hstage⟩) _)
      | cons x rest =>
          rw [step_receiving hstage]
          by_cases hvalid : x.Valid (some d.peer)
          · right
            rw [heard_cons_valid hvalid, step_receiving hstage]
            refine (receive_blind d s x).alike_read x rest hvalid fun m sent hnext => ?_
            obtain ⟨-, hkept, hm⟩ := receive_next hstage hnext
            exact hm.listensTo_eq.trans (congrArg some hkept)
          · exact Or.inl ⟨x, rest, d, rfl, hvalid, receive_noise hvalid s rest, Or.inl rfl⟩

/-- How a download that reads only what counts follows one that reads everything. -/
inductive Trails (count : Nat) : Download → List Arrival → Download → List Arrival → Prop
  /-- They do the same, with or without noise in the queue. -/
  | along (d : Download) (queue : List Arrival) (hcalm : d.Calm) :
      Trails count (d.damaged count) queue d (heard d.listensTo queue)
  /-- Noise has ended the wait of the one, and the other waits for the answer. -/
  | roused (d : Download) (queue : List Arrival) (hstage : d.stage = .handshake) (hcalm : d.Calm) :
      Trails count (d.again.damaged count) queue d (heard d.listensTo queue)

/-- A download that has been roused in a first wait begins the wait again. -/
theorem again_step (hstage : d.stage = .handshake) (hcalm : d.Calm) (count : Nat) (queue : List Arrival) :
    Machine.step (d.again.damaged count) queue = .next (d.damaged count) queue [] := by
  unfold Calm at hcalm
  rw [hstage] at hcalm
  have hpatient : d.retry.reset.Patient :=
    ⟨show 0 < d.retry.maxTries from hcalm.2, show 0 + 1 < limit32 by decide⟩
  have hretry : ({ d.retry.reset with count := d.retry.reset.count + 1 } : Retry) = d.retry := by
    show ({ d.retry with count := 1 } : Retry) = d.retry
    rw [← hcalm.1]
  show (d.again.damaged count).beginWait queue = _
  unfold beginWait
  rw [show (d.again.damaged count).retry = d.retry.reset from rfl, Retry.attempt_eq hpatient]
  show Move.next { d.again.damaged count with
      retry := { d.retry.reset with count := d.retry.reset.count + 1 }, stage := .handshake } queue [] = _
  rw [hretry, ← hstage]
  rfl

theorem Trails.next {queue₁ : List Arrival} (h : Trails count d queue d' queue')
    (hstep : Machine.step d queue = .next m queue₁ sent) :
    ∃ read, queue = read ++ queue₁ ∧ Hearing.listensTo m = peerAfter (Hearing.listensTo d) read ∧
      ((sent = [] ∧ Trails (count + damage (Hearing.listensTo d) read) m queue₁ d' queue') ∨
        ∃ m' queue₁', Machine.step d' queue' = .next m' queue₁' sent ∧
          m = m'.damaged (count + damage (Hearing.listensTo d) read) ∧
          Trails (count + damage (Hearing.listensTo d) read) m queue₁ m' queue₁') := by
  cases h with
  | along _ _ hcalm =>
      have hstep' := (step_damaged count).symm.trans hstep
      obtain ⟨m₀, (hstep₀ : Machine.step d' queue = _), (rfl : m = m₀.damaged count)⟩ :=
        Move.next_of_damaged hstep'
      rw [show Hearing.listensTo (d'.damaged count) = d'.listensTo from rfl]
      rcases step_alike d' queue with ⟨x, rest, d₀, rfl, hinvalid, hnoise, hd₀⟩ | halike
      · cases hnoise.symm.trans hstep₀
        have hnames : peerAfter d'.listensTo [x] = d'.listensTo := names_of_not_valid hinvalid
        have hdamage : damage d'.listensTo [x] = x.damage d'.listensTo := rfl
        refine ⟨[x], rfl, ?_, Or.inl ⟨rfl, ?_⟩⟩
        · rw [hnames]
          rcases hd₀ with rfl | ⟨hstage, rfl⟩
          · rfl
          · exact (listensTo_handshake hstage).symm
        · rw [heard_cons_invalid hinvalid, hdamage, damaged_damaged, Nat.add_comm _ count]
          rcases hd₀ with rfl | ⟨hstage, rfl⟩
          · exact .along _ queue₁ hcalm
          · exact .roused d' queue₁ hstage hcalm
      · rw [hstep₀] at halike
        obtain ⟨read, hqueue, hpeer, hdamage, hnext⟩ := halike.next
        refine ⟨read, hqueue, hpeer, Or.inr ⟨_, _, hnext, ?_, ?_⟩⟩
        · rw [hdamage]
          rfl
        · rw [hdamage]
          exact .along _ queue₁ ((step_proceeds hstep₀).calm hcalm)
  | roused _ _ hstage hcalm =>
      cases (again_step hstage hcalm count queue).symm.trans hstep
      exact ⟨[], rfl, listensTo_handshake hstage, Or.inl ⟨rfl, .along d' queue hcalm⟩⟩

theorem follows : Follows Trails where
  peer h := by
    cases h <;> rfl
  patience _ _ := rfl
  listens _ _ := rfl
  rests count d hwait := (step_damaged count).trans (congrArg (Move.damaged count) hwait)
  wait := by
    intro count d queue d' queue' h hwait
    cases h with
    | along _ _ hcalm =>
        obtain hwait' : Machine.step d' queue = .wait :=
          Move.wait_of_damaged ((step_damaged count).symm.trans hwait)
        rcases step_alike d' queue with ⟨x, rest, d₀, -, -, hnoise, -⟩ | halike
        · cases hnoise.symm.trans hwait'
        · rw [hwait'] at halike
          cases halike.of_wait
          exact ⟨rfl, rfl, hwait', rfl⟩
    | roused _ _ hstage hcalm => cases (again_step hstage hcalm count queue).symm.trans hwait
  stop := by
    intro count d queue d' queue' result h hstop
    cases h with
    | along _ _ hcalm =>
        obtain ⟨result, (hstop₀ : Machine.step d' queue = _), rfl⟩ :=
          Move.stop_of_damaged ((step_damaged count).symm.trans hstop)
        rcases step_alike d' queue with ⟨x, rest, d₀, -, -, hnoise, -⟩ | halike
        · cases hnoise.symm.trans hstop₀
        · rw [hstop₀] at halike
          exact ⟨result, halike.of_stop, rfl, rfl⟩
    | roused _ _ hstage hcalm => cases (again_step hstage hcalm count queue).symm.trans hstop
  next h hstep := h.next hstep

theorem settles : Trial.Settles load Trails Calm where
  bounded := {
    pos := fun d queue => Nat.lt_of_lt_of_le (rank_bounds d.stage).1 (Nat.le_add_left _ _)
    less := fun _ _ _ _ _ hstep => (step_proceeds hstep).load_lt
    effort := fun d queue => by
      have hrank := (rank_bounds d.stage).2
      show 2 * queue.length + rank d.stage ≤ 16 + 4 * queue.length
      omega }
  follows := follows
  calm _ _ _ _ _ h hstep := (step_proceeds hstep).calm h
  begins count d queue h _ := .along d queue h

end Download

namespace Scenario

/-- **Noise leaves no trace.**  As long as no time passes, an upload and a download send, hold and end with
the same, whether or not other datagrams arrive besides those that count; only the damaged ones among them
are counted.  All that is sent arrives when the address is known from the start. -/
theorem noise_without_trace (link : Link) (faults : FaultModel) (known : Bool) :
    (∀ config request client source batches,
      Undisturbed link faults (Upload.start config request client source) batches known) ∧
    ∀ config fetch server d, Download.start config fetch server = .ok d → ∀ batches,
      Undisturbed link faults d batches known ∧
      (record link faults d (batches.map .send) known).machine.file =
        (record link faults d ((heardAll none batches).map .send) known).machine.file := by
  refine ⟨fun config request client source batches => ?_, fun config fetch server d hstart batches => ?_⟩
  · have hsim := @Upload.Trails.along 0 (.opening config request client source) [] (Or.inr rfl) nofun
    exact @Trial.Settles.undisturbed _ _ _ _ _ _ Upload.settles (.opening config request client source)
      trivial hsim link faults batches known
  · obtain ⟨hstage, hcount⟩ := Download.fresh_of_start hstart
    have hcalm : d.Calm := by
      unfold Download.Calm
      rw [hstage]
      exact hcount
    have hundisturbed := Download.settles.undisturbed hcalm (.along d [] hcalm) link faults batches known
    refine ⟨hundisturbed, ?_⟩
    have hlistens : Hearing.listensTo d = none := by
      show d.listensTo = none
      unfold Download.listensTo
      rw [hstage]
    rw [← hlistens, hundisturbed.state]
    rfl

/-- Damaged datagrams from anybody, and datagrams of strangers, come before and after the answer. -/
def noisyBatches : List (List Arrival) :=
  let noise (source : String) : Arrival := ⟨⟨source, 0⟩, [1, 2, 3, 4, 5, 6, 7, 8]⟩
  let mail (source : String) (p : Packet) : Arrival := ⟨⟨source, 0⟩, p.frame⟩
  [[noise "stranger", mail "transfer" (.control .fnameOk 0), noise "stranger"],
    [mail "stranger" ⟨1, .data, [50]⟩, noise "transfer", mail "transfer" ⟨1, .data, [10, 20]⟩],
    [mail "transfer" (.control .endOfFile 2)]]

/-- The file of the peer is received, and the noise that was not a stranger's is counted. -/
theorem noisy_received : ∃ d,
    Download.start {} Encounter.letterFetch (.ok ⟨"server", 0⟩) = .ok d ∧
    damageIn .up (.ofConfig {}) d (noisyBatches.map .send) true = 2 ∧
    (record .up (.ofConfig {}) d (noisyBatches.map .send) true).machine.file = some [10, 20] ∧
    (record .up (.ofConfig {}) d ((heardAll none noisyBatches).map .send) true).machine.file = some [10, 20] ∧
    Undisturbed .up (.ofConfig {}) d noisyBatches true := by
  obtain ⟨d, hstart⟩ : ∃ d, Download.start {} Encounter.letterFetch (.ok ⟨"server", 0⟩) = .ok d := ⟨_, rfl⟩
  obtain ⟨hundisturbed, hfile⟩ := (noise_without_trace .up (.ofConfig {}) true).2 _ _ _ d hstart noisyBatches
  have hruns : damageIn .up (.ofConfig {}) d (noisyBatches.map .send) true = 2 ∧
      (record .up (.ofConfig {}) d (noisyBatches.map .send) true).machine.file = some [10, 20] := by
    cases hstart
    decide +kernel
  exact ⟨d, hstart, hruns.1, hruns.2, hfile.symm.trans hruns.2, hundisturbed⟩

end Scenario

end SelectiveReject
