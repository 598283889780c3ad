import SelectiveReject.Proofs.Faults
import SelectiveReject.Proofs.Taking
import SelectiveReject.Scenario.Station

/-!
# Uploads come to rest

Whatever an upload has read and however long its file is, it can take only so many steps before it waits
with nothing left to read, or has ended.  Each step makes its `load` less:

```
2 * (bytes to be sent) + 4 * (datagrams to be read) + rank
```

And when nothing is read, each expired wait leaves one try less, so an upload that hears nothing ends.
-/

namespace SelectiveReject

namespace Serving

/-- How many bytes are still to be sent. -/
def left (s : Serving) : Nat := (s.unread.getD []).length

/-- The same client is served on, with no more to be sent. -/
structure Stays (s s' : Serving) : Prop where
  client : s'.client = s.client
  retry : s'.retry = s.retry
  left : s'.left ≤ s.left

/-- What the steps of an upload come to, whatever its window holds. -/
inductive Turns (s : Serving) : Activity → List Arrival → Move Upload → Prop
  | stop (activity : Activity) (queue : List Arrival) (result : Except Stop Statistics) :
      Turns s activity queue (.stop result)
  | rest (goal : Goal) : Turns s (.waiting goal) [] .wait
  | piece (s' : Serving) (queue : List Arrival) (sent : List Packet) (hstays : s.Stays s')
      (hless : s'.left < s.left) :
      Turns s .sending queue (.next (.serving s' (.listening .more)) queue sent)
  | announce (s' : Serving) (queue : List Arrival) (sent : List Packet) (hstays : s.Stays s') :
      Turns s .sending queue (.next (.serving s' (.listening .farewell)) queue sent)
  | closed (queue : List Arrival) (hclosed : s.window.isOpen = .ok false) :
      Turns s .sending queue (.next (.serving s (.listening .room)) queue [])
  | hear (goal : Goal) (activity : Activity) (x : Arrival) (queue : List Arrival) (s' : Serving)
      (sent : List Packet) (hstays : s.Stays s')
      (hactivity : activity = .listening goal ∨ activity = .done) :
      Turns s (.listening goal) (x :: queue) (.next (.serving s' activity) queue sent)
  | goOn (goal : Goal) (hgoal : goal = .more ∨ goal = .room ∧ s.window.isOpen = .ok true) :
      Turns s (.listening goal) [] (.next (.serving s .sending) [] [])
  | await (goal : Goal) (hgoal : goal ≠ .more) (hpatient : s.retry.count + 1 ≤ s.retry.maxTries) :
      Turns s (.listening goal) [] (.next (.serving
        { s with retry := { s.retry with count := s.retry.count + 1 } } (.waiting goal)) [] [])
  | wake (goal : Goal) (x : Arrival) (queue : List Arrival) :
      Turns s (.waiting goal) (x :: queue)
        (.next (.serving { s with retry := s.retry.reset } (.listening goal)) (x :: queue) [])
  | again (goal : Goal) (queue : List Arrival) (s' : Serving) (sent : List Packet)
      (hstays : s.Stays s') :
      Turns s (.overdue goal) queue (.next (.serving s' (.listening goal)) queue sent)

variable {s : Serving}

theorem Stays.refl (s : Serving) : s.Stays s := ⟨rfl, rfl, Nat.le_refl _⟩

theorem resend_stays (s : Serving) (seq : Nat) (flag : Flag) : s.Stays (s.resend seq flag).1 := by
  unfold resend
  split
  · exact .refl s
  · exact ⟨rfl, rfl, Nat.le_refl _⟩

theorem announceEnd_stays (s : Serving) : s.Stays s.announceEnd.1 := ⟨rfl, rfl, Nat.le_refl _⟩

theorem sendNext_turns (s : Serving) (queue : List Arrival) :
    Turns s .sending queue (s.sendNext queue) := by
  unfold sendNext
  split
  · exact .stop _ _ _
  · rename_i unread hunread
    split
    · exact .announce _ _ _ (announceEnd_stays s)
    · rename_i chunk rest hnil hchunk
      -- the piece takes at least one byte from what is to be sent
      have hless : rest.length < s.left := by
        have hlength : chunk.length + rest.length = unread.length := by
          unfold Serving.chunk at hchunk
          cases hchunk
          rw [List.length_take, List.length_drop]
          omega
        have hpos : 0 < chunk.length := List.length_pos_iff.mpr hnil
        unfold left
        rw [hunread, Option.getD_some]
        omega
      dsimp only
      split
      · exact .stop _ _ _
      · exact .piece _ _ _ ⟨rfl, rfl, Nat.le_of_lt hless⟩ hless

theorem feedback_turns (s : Serving) (goal : Goal) (x : Arrival) (packet : Packet)
    (queue : List Arrival) : Turns s (.listening goal) (x :: queue) (s.feedback goal packet queue) := by
  unfold feedback
  dsimp only
  split
  · split
    · exact .hear goal _ x queue _ _ ⟨rfl, rfl, Nat.le_refl _⟩ (Or.inl rfl)
    · exact .hear goal _ x queue _ _ ⟨rfl, rfl, Nat.le_refl _⟩ (Or.inl rfl)
    · exact .stop _ _ _
  · have hresend := resend_stays
      { s with statistics := { s.statistics with srejsReceived := s.statistics.srejsReceived + 1 } }
      packet.seq .srejData
    exact .hear goal _ x queue _ _ ⟨hresend.client, hresend.retry, hresend.left⟩ (Or.inl rfl)
  · split
    · exact .hear goal _ x queue s _ (.refl s) (Or.inr rfl)
    · exact .hear goal _ x queue s _ (.refl s) (Or.inl rfl)
  · exact .hear goal _ x queue s _ (.refl s) (Or.inl rfl)

theorem hear_turns (s : Serving) (goal : Goal) (x : Arrival) (queue : List Arrival) :
    Turns s (.listening goal) (x :: queue) (s.hear goal x queue) := by
  unfold hear
  split
  · exact .hear goal _ x queue s _ (.refl s) (Or.inl rfl)
  · split
    · exact feedback_turns s goal x _ queue
    · exact .hear goal _ x queue _ _ ⟨rfl, rfl, Nat.le_refl _⟩ (Or.inl rfl)
    · exact .hear goal _ x queue s _ (.refl s) (Or.inl rfl)

theorem beginWait_turns (s : Serving) {goal : Goal} (hgoal : goal ≠ .more) :
    Turns s (.listening goal) [] (s.beginWait goal []) := by
  unfold beginWait
  by_cases hpatient : s.retry.Patient
  · rw [Retry.attempt_eq hpatient]
    exact .await goal hgoal hpatient.1
  · rcases Retry.attempt_of_not_patient hpatient with ⟨a, ha⟩ | ⟨r, hr⟩
    · rw [ha]
      exact .stop _ _ _
    · rw [hr]
      exact .stop _ _ _

theorem heardAll_turns (s : Serving) (goal : Goal) :
    Turns s (.listening goal) [] (s.heardAll goal) := by
  cases goal with
  | more => exact .goOn .more (Or.inl rfl)
  | farewell => exact beginWait_turns s (by simp)
  | room =>
      unfold heardAll
      dsimp only
      split
      · exact .stop _ _ _
      · rename_i hopen
        exact .goOn .room (Or.inr ⟨rfl, hopen⟩)
      · exact beginWait_turns s (by simp)

theorem catchUp_turns (s : Serving) (goal : Goal) (queue : List Arrival) :
    Turns s (.overdue goal) queue (s.catchUp goal queue) := by
  unfold catchUp
  split
  · exact .again _ queue _ _ (resend_stays s _ _)
  · exact .again _ queue _ _ (announceEnd_stays s)
  · exact .again _ queue s _ (.refl s)

theorem step_turns (s : Serving) (activity : Activity) (queue : List Arrival) :
    Turns s activity queue (s.step queue activity) := by
  cases activity with
  | sending =>
      unfold step
      dsimp only
      split
      · exact .stop _ _ _
      · exact sendNext_turns s queue
      · rename_i hclosed
        exact .closed queue hclosed
  | listening goal =>
      cases queue with
      | nil => exact heardAll_turns s goal
      | cons x queue => exact hear_turns s goal x queue
  | waiting goal =>
      cases queue with
      | nil => exact .rest goal
      | cons x queue => exact .wake goal x queue
  | overdue goal => exact catchUp_turns s goal queue
  | done => exact .stop _ _ _

/-- What an activity adds to the load: the steps up to the next that sends, reads or rests. -/
def rank (s : Serving) : Activity → List Arrival → Nat
  | .sending, _ => 3
  | .listening .more, _ => 4
  | .listening .room, _ =>
      match s.window.isOpen with
      | .ok true => 4
      | _ => 2
  | .listening .farewell, _ => 2
  | .waiting _, [] => 1
  | .waiting _, _ :: _ => 5
  | .overdue _, _ => 5
  | .done, _ => 1

@[simp] theorem rank_resting (s : Serving) (goal : Goal) : s.rank (.waiting goal) [] = 1 := rfl

@[simp] theorem rank_waking (s : Serving) (goal : Goal) (x : Arrival) (queue : List Arrival) :
    s.rank (.waiting goal) (x :: queue) = 5 := rfl

@[simp] theorem rank_overdue (s : Serving) (goal : Goal) (queue : List Arrival) :
    s.rank (.overdue goal) queue = 5 := rfl

theorem two_le_rank_listening (s : Serving) (goal : Goal) (queue : List Arrival) :
    2 ≤ s.rank (.listening goal) queue := by
  cases goal with
  | more => exact Nat.le_add_left 2 2
  | farewell => exact Nat.le_refl 2
  | room =>
      simp only [rank]
      split <;> omega

theorem rank_listening_le (s : Serving) (goal : Goal) (queue : List Arrival) :
    s.rank (.listening goal) queue ≤ 4 := by
  cases goal with
  | more => exact Nat.le_refl 4
  | farewell => exact Nat.le_add_left 2 2
  | room =>
      simp only [rank]
      split <;> omega

end Serving

namespace Upload

/-- A bound on the steps that an upload can take before it rests. -/
def load (u : Upload) (queue : List Arrival) : Nat :=
  match u with
  | .opening _ _ _ (.contents bytes) => 2 * bytes.length + 4 * queue.length + 4
  | .opening _ _ _ _ => 4 * queue.length + 4
  | .refused _ _ => 4 * queue.length + 1
  | .serving s activity => 2 * s.left + 4 * queue.length + s.rank activity queue

/-- How many more waits an upload begins when it reads nothing. -/
def tries : Upload → Nat
  | .serving s (.waiting _) => s.retry.maxTries + 1 - s.retry.count
  | .serving s _ => s.retry.maxTries - s.retry.count
  | _ => 0

/-- The file is open. -/
def Serves (u : Upload) : Prop := ∃ s activity, u = .serving s activity

/-- An upload that waits had patience for the wait. -/
def Patient : Upload → Prop
  | .serving s (.waiting _) => s.retry.count ≤ s.retry.maxTries
  | _ => True

variable {u u' : Upload} {queue queue' : List Arrival} {sent : List Packet}

theorem load_le_effort (u : Upload) (queue : List Arrival) :
    u.load queue ≤ u.effort + 4 * queue.length := by
  match u with
  | .opening _ _ _ (.contents bytes) =>
      simp only [load, effort]
      omega
  | .opening _ _ _ .missing | .opening _ _ _ .unreadable | .refused _ _ =>
      simp only [load, effort]
      omega
  | .serving s activity =>
      have hrank : s.rank activity queue ≤ 5 := by
        match activity, queue with
        | .sending, _ | .waiting _, [] | .waiting _, _ :: _ | .overdue _, _ | .done, _ =>
            simp only [Serving.rank]
            omega
        | .listening goal, queue => exact Nat.le_trans (s.rank_listening_le goal queue) (by omega)
      simp only [load, effort]
      unfold Serving.left
      omega

theorem load_pos (u : Upload) (queue : List Arrival) : 0 < u.load queue := by
  match u with
  | .opening _ _ _ (.contents _) | .opening _ _ _ .missing | .opening _ _ _ .unreadable
  | .refused _ _ =>
      simp only [load]
      omega
  | .serving s activity =>
      have hrank : 0 < s.rank activity queue := by
        match activity, queue with
        | .sending, _ | .waiting _, [] | .waiting _, _ :: _ | .overdue _, _ | .done, _ =>
            simp only [Serving.rank]
            omega
        | .listening goal, queue => exact Nat.lt_of_lt_of_le (by omega) (s.two_le_rank_listening goal queue)
      simp only [load]
      omega

/-- Each step takes something off the load. -/
theorem load_turns {s : Serving} {activity : Activity}
    (h : s.Turns activity queue (.next u' queue' sent)) :
    u'.load queue' < (serving s activity).load queue := by
  cases h with
  | piece s' _ _ hstays hless =>
      simp only [load, Serving.rank]
      omega
  | announce s' _ _ hstays =>
      have := hstays.left
      simp only [load, Serving.rank]
      omega
  | closed _ hclosed =>
      simp only [load, Serving.rank, hclosed]
      omega
  | hear goal activity' x _ s' _ hstays hactivity =>
      have hleft := hstays.left
      have hlo := s.two_le_rank_listening goal (x :: queue')
      have hhi : s'.rank activity' queue' ≤ 4 := by
        rcases hactivity with rfl | rfl
        · exact s'.rank_listening_le goal queue'
        · exact Nat.le_add_left 1 3
      simp only [load, List.length_cons]
      omega
  | goOn goal hgoal =>
      rcases hgoal with rfl | ⟨rfl, hopen⟩
      · simp only [load, Serving.rank]
        omega
      · simp only [load, Serving.rank, hopen]
        omega
  | await goal hgoal hpatient =>
      have hlo := s.two_le_rank_listening goal []
      have hleft : Serving.left
        { s with retry := { s.retry with count := s.retry.count + 1 } } = s.left := rfl
      simp only [load, hleft, Serving.rank_resting]
      omega
  | wake goal x queue =>
      have hhi := Serving.rank_listening_le { s with retry := s.retry.reset } goal (x :: queue)
      have hleft : Serving.left { s with retry := s.retry.reset } = s.left := rfl
      simp only [load, hleft, Serving.rank_waking]
      omega
  | again goal _ s' _ hstays =>
      have hleft := hstays.left
      have hhi := s'.rank_listening_le goal queue
      simp only [load, Serving.rank_overdue]
      omega

/-- An upload whose file is yet to be opened opens it, or ends. -/
theorem step_opening_cases (config : Config) (request : FileRequest) (client : Address)
    (source : Source) (queue : List Arrival) :
    (∃ result, (Upload.opening config request client source).step queue = .stop result) ∨
      (∃ sent, (Upload.opening config request client source).step queue =
        .next (.refused request client) queue sent) ∨
      ∃ s sent, (Upload.opening config request client source).step queue =
          .next (.serving s .sending) queue sent ∧ s.client = client ∧
        2 * s.left + 4 ≤ (Upload.opening config request client source).load [] := by
  have hopen : ∀ unread : Option Bytes,
      (∃ e, openFile config request client unread queue = .fail e) ∨
        ∃ s sent, openFile config request client unread queue = .next (.serving s .sending) queue sent ∧
          s.client = client ∧ s.left = (unread.getD []).length := by
    intro unread
    unfold openFile
    split
    · exact Or.inl ⟨_, rfl⟩
    · exact Or.inr ⟨_, _, rfl, rfl, rfl⟩
  cases source with
  | missing => exact Or.inr (Or.inl ⟨_, rfl⟩)
  | unreadable =>
      rcases hopen none with ⟨e, he⟩ | ⟨s, sent, hs, hclient, hleft⟩
      · exact Or.inl ⟨_, he⟩
      · refine Or.inr (Or.inr ⟨s, sent, hs, hclient, ?_⟩)
        rw [hleft]
        exact Nat.le_refl 4
  | contents bytes =>
      rcases hopen (some bytes) with ⟨e, he⟩ | ⟨s, sent, hs, hclient, hleft⟩
      · exact Or.inl ⟨_, he⟩
      · refine Or.inr (Or.inr ⟨s, sent, hs, hclient, ?_⟩)
        rw [hleft]
        exact Nat.le_refl _

theorem client_expire (u : Upload) : u.expire.client = u.client := by
  unfold expire
  split <;> rfl

/-- What a step changes: the load falls, the client stays, and a wait is begun with patience. -/
structure Steps (u : Upload) (queue : List Arrival) (u' : Upload) (queue' : List Arrival) : Prop where
  load : u'.load queue' < u.load queue
  client : u'.client = u.client
  patient : u'.Patient
  /-- When nothing is read, the waits that are left stay the same. -/
  tries : queue = [] → u.Serves → queue' = [] ∧ u'.Serves ∧ u'.tries = u.tries

theorem steps_of_turns {s : Serving} {activity : Activity}
    (h : s.Turns activity queue (.next u' queue' sent)) : Steps (.serving s activity) queue u' queue' where
  load := load_turns h
  client := by
    cases h with
    | piece s' _ _ hstays => exact hstays.client
    | announce s' _ _ hstays => exact hstays.client
    | closed => rfl
    | hear goal activity' x _ s' _ hstays => exact hstays.client
    | goOn => rfl
    | await => rfl
    | wake => rfl
    | again goal _ s' _ hstays => exact hstays.client
  patient := by
    cases h with
    | await goal hgoal hpatient => exact hpatient
    | hear goal activity' x _ s' _ hstays hactivity => rcases hactivity with rfl | rfl <;> trivial
    | piece | announce | closed | goOn | wake | again => trivial
  tries hqueue _ := by
    subst hqueue
    cases h with
    | piece s' _ _ hstays =>
        refine ⟨rfl, ⟨_, _, rfl⟩, ?_⟩
        simp only [Upload.tries, hstays.retry]
    | announce s' _ _ hstays =>
        refine ⟨rfl, ⟨_, _, rfl⟩, ?_⟩
        simp only [Upload.tries, hstays.retry]
    | closed => exact ⟨rfl, ⟨_, _, rfl⟩, rfl⟩
    | goOn => exact ⟨rfl, ⟨_, _, rfl⟩, rfl⟩
    | await goal hgoal hpatient =>
        refine ⟨rfl, ⟨_, _, rfl⟩, ?_⟩
        simp only [Upload.tries]
        omega
    | again goal _ s' _ hstays =>
        refine ⟨rfl, ⟨_, _, rfl⟩, ?_⟩
        simp only [Upload.tries, hstays.retry]

theorem steps_of_step (h : u.step queue = .next u' queue' sent) : Steps u queue u' queue' := by
  match u with
  | .serving s activity =>
      have hturns := s.step_turns activity queue
      rw [show s.step queue activity = .next u' queue' sent from h] at hturns
      exact steps_of_turns hturns
  | .refused request client => cases h
  | .opening config request client source =>
      have hserves : ¬ (Upload.opening config request client source).Serves := by
        rintro ⟨s, activity, hs⟩
        cases hs
      rcases step_opening_cases config request client source queue with
        ⟨result, hresult⟩ | ⟨sent', hrefused⟩ | ⟨s, sent', hserving, hclient, hleft⟩
      · rw [hresult] at h
        cases h
      · rw [hrefused] at h
        cases h
        refine ⟨?_, rfl, trivial, fun _ hs => absurd hs hserves⟩
        cases source <;> simp only [load] <;> omega
      · rw [hserving] at h
        cases h
        refine ⟨?_, hclient, trivial, fun _ hs => absurd hs hserves⟩
        have hrank : s.rank .sending queue = 3 := rfl
        cases source <;> simp only [load, hrank, List.length_nil] at * <;> omega

/-- An upload can only wait with nothing left to read. -/
theorem waiting_of_step (h : u.step queue = .wait) :
    queue = [] ∧ ∃ s goal, u = .serving s (.waiting goal) := by
  match u with
  | .serving s activity =>
      have hturns := s.step_turns activity queue
      rw [show s.step queue activity = .wait from h] at hturns
      cases hturns
      exact ⟨rfl, s, _, rfl⟩
  | .refused request client => cases h
  | .opening config request client source =>
      rcases step_opening_cases config request client source queue with
        ⟨result, hresult⟩ | ⟨sent', hrefused⟩ | ⟨s, sent', hserving, -⟩
      · rw [hresult] at h
        cases h
      · rw [hrefused] at h
        cases h
      · rw [hserving] at h
        cases h

end Upload

namespace Scenario.Station

/-- The upload waits, with nothing left to read and a time at which the wait is over. -/
structure Resting (s : Station Upload) : Prop where
  running : s.ended = false
  queue : s.queue = []
  due : ∃ time, s.deadline = some time
  waiting : ∃ u goal, s.machine = .serving u (.waiting goal)
  patient : s.machine.Patient

/-- The upload has ended, and waits no more. -/
structure Halted (s : Station Upload) : Prop where
  ended : s.ended = true
  deadline : s.deadline = none

/-- What a run comes to that is long enough. -/
structure Settled (s : Station Upload) (faults : FaultModel)
    (r : Station Upload × FaultModel × List Departure) : Prop where
  faults : r.2.1 = faults
  target : ∀ d ∈ r.2.2, d.target = s.machine.client
  client : r.1.machine.client = s.machine.client
  rests : r.1.ended = false → r.1.Resting
  halts : r.1.ended = true → r.1.Halted
  tries : r.1.ended = false → s.queue = [] → s.machine.Serves → r.1.machine.tries = s.machine.tries

variable {link : Link} {faults : FaultModel} {now : Nat}

/-- An upload that runs for as many steps as its load ends or comes to rest. -/
theorem run_settled (hidle : faults.Idle) (count : Nat) : ∀ s : Station Upload,
    s.machine.load s.queue ≤ count → s.ended = false → s.machine.Patient →
    s.Settled faults (s.run link now faults count) := by
  induction count with
  | zero =>
      intro s hload
      have := Upload.load_pos s.machine s.queue
      omega
  | succ count ih =>
      intro s hload hrunning hpatient
      unfold run
      split
      · rename_i hstep
        obtain ⟨hqueue, u, goal, hmachine⟩ := Upload.waiting_of_step hstep
        exact ⟨rfl, nofun, rfl, fun _ => ⟨hrunning, hqueue, ⟨_, rfl⟩, ⟨u, goal, hmachine⟩, hpatient⟩,
          fun hended => absurd (hrunning.symm.trans hended) Bool.false_ne_true, fun _ _ _ => rfl⟩
      · exact ⟨rfl, nofun, rfl, nofun, fun hended => ⟨hended, rfl⟩, nofun⟩
      · rename_i machine queue sent hstep
        have hsteps := Upload.steps_of_step hstep
        have hfaults := @Channel.sendAll_faults _ { s.channel with peer := Machine.peer machine } link
          faults _ hidle sent
        have htarget : ∀ d ∈ (Channel.sendAll { s.channel with peer := Machine.peer machine } link
            faults sent).2.2.2, d.target = s.machine.client := fun d hd =>
          (Channel.sendAll_departure hd).1.trans hsteps.client
        split
        · rename_i hsend
          rw [hsend] at hfaults htarget
          exact ⟨hfaults, htarget, hsteps.client, nofun, fun hended => ⟨hended, rfl⟩, nofun⟩
        · rename_i channel faults' left hsend
          rw [hsend] at hfaults htarget
          cases hfaults
          have hrest := ih ⟨machine, channel, queue, s.deadline, none⟩ (by
            have := hsteps.load
            show machine.load queue ≤ count
            omega) rfl hsteps.patient
          refine ⟨hrest.faults, fun d hd => ?_, hrest.client.trans hsteps.client, hrest.rests,
            hrest.halts, fun hruns hqueue hserves => ?_⟩
          · rcases List.mem_append.mp hd with hd | hd
            · exact htarget d hd
            · exact (hrest.target d hd).trans hsteps.client
          · obtain ⟨hqueue', hserves', htries⟩ := hsteps.tries hqueue hserves
            exact (hrest.tries hruns hqueue' hserves').trans htries

/-- The steps that a station is given are enough. -/
theorem settle_settled (hidle : faults.Idle) {s : Station Upload} (hrunning : s.ended = false)
    (hpatient : s.machine.Patient) : s.Settled faults (s.settle link now faults) :=
  run_settled hidle _ s (Upload.load_le_effort _ _) hrunning hpatient

theorem Resting.not_canMove {s : Station Upload} (h : s.Resting) : s.canMove = false := by
  obtain ⟨time, hdue⟩ := h.due
  simp [canMove, h.running, h.queue, hdue]

/-- An upload that rests has a try left. -/
theorem Resting.tries_pos {s : Station Upload} (h : s.Resting) : 0 < s.machine.tries := by
  obtain ⟨u, goal, hmachine⟩ := h.waiting
  have hpatient := h.patient
  rw [hmachine] at hpatient ⊢
  have : u.retry.count ≤ u.retry.maxTries := hpatient
  simp only [Upload.tries]
  omega

/-- When the wait of an upload is over, it has one try less, or it ends. -/
theorem Resting.expired {s : Station Upload} (h : s.Resting) (hidle : faults.Idle) :
    s.expire.Settled faults (s.expire.settle link now faults) ∧
      ((s.expire.settle link now faults).1.ended = false →
        (s.expire.settle link now faults).1.machine.tries + 1 = s.machine.tries) := by
  obtain ⟨u, goal, hmachine⟩ := h.waiting
  have hexpired : s.expire.machine = .serving u (.overdue goal) := by
    show Upload.expire s.machine = _
    rw [hmachine]
    rfl
  have hsettled := @settle_settled link faults now hidle s.expire h.running (by
    rw [hexpired]
    trivial)
  refine ⟨hsettled, fun hruns => ?_⟩
  have htries := hsettled.tries hruns h.queue ⟨u, _, hexpired⟩
  have hpatient := h.patient
  rw [hmachine] at hpatient ⊢
  have : u.retry.count ≤ u.retry.maxTries := hpatient
  rw [htries, hexpired]
  simp only [Upload.tries]
  omega

end Scenario.Station

end SelectiveReject
