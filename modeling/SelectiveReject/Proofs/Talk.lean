import SelectiveReject.Proofs.Faultless

/-!
# A client and a transfer that hear each other

A `Talk` is one client, one transfer with its file open, and the datagrams that are pending for either.
Four numbers go down, in this order, with every step of the two:

* how far they have to go, tripled, and what they `lack` before something `Fruitful` is pending, so that
  reading it brings them on;
* how much the transfer has not sent for the first time;
* the weight of what is pending, where each packet weighs more than the answers to it;
* how urgent the next step of the transfer is.

Only a transfer whose wait is over adds to what is pending, and what it adds is fruitful.  Whether it has a
try left for each wait depends on what it reads and when: `Assured` says how it is sure to have one.
-/

namespace SelectiveReject

/-! ## The weight of a packet -/

/-- A packet weighs more than the packets that answer it. -/
def Flag.weight : Flag → Nat
  | .data | .endOfFile => 7
  | .srej => 5
  | .srejData | .timeoutData => 3
  | _ => 1

def Arrival.weight (x : Arrival) : Nat :=
  match x.packet with
  | .ok p => p.flag.weight
  | .error _ => 1

theorem Flag.weight_pos (flag : Flag) : 1 ≤ flag.weight := by
  cases flag <;> decide

theorem Flag.weight_of_isData {flag : Flag} (h : flag.isData = true) : 3 ≤ flag.weight := by
  cases flag <;> first | decide | cases h

theorem Arrival.weight_pos (x : Arrival) : 1 ≤ x.weight := by
  unfold weight
  split
  · exact Flag.weight_pos _
  · exact Nat.le_refl 1

theorem Arrival.weight_eq {x : Arrival} {p : Packet} (h : x.packet = .ok p) :
    x.weight = p.flag.weight := by
  rw [weight, h]

/-- The weight of a queue. -/
def load (queue : List Arrival) : Nat := total Arrival.weight queue

/-- The weight of packets that are sent; on the wire a packet weighs one more. -/
def cost (sent : List Packet) : Nat := total (fun p => p.flag.weight + 1) sent

/-! ## What becomes of a packet, summed up -/

namespace Session

variable {j : Job} {v : View} {s : Session} {t : Statistics} {p : Packet} {r : Reply}
  {source : Address}

/-- A packet moves the client on and is answered, or it completes the file, or its answer weighs less than
it does. -/
theorem Takes.outcome (hp : p.Honest j v source) (hnext : s.next = v.next)
    (ht : Takes j v.horizon s t p r) :
    (s.next < r.session.next ∧ r.complete = false ∧ r.packets ≠ []) ∨
    (r.complete = true ∧ r.session.next = s.next ∧ r.packets = [.control .eofAck s.next]) ∨
    (r.complete = false ∧ r.session.next = s.next ∧ cost r.packets < p.flag.weight ∧
      (p.flag.isData = true → p.seq ≠ s.next) ∧ (p.flag = .endOfFile → p.seq ≠ s.next) ∧
      (p.flag.isData = true → p.seq < s.next → r.packets = [.control .ack (s.next - 1)])) := by
  cases ht with
  | old hdata hseq =>
      right
      right
      refine ⟨rfl, rfl, ?_, fun _ => by omega, fun _ => by omega, fun _ _ => rfl⟩
      have := Flag.weight_of_isData hdata
      show 2 < p.flag.weight
      omega
  | advance s' hdata hseq hfits hlt => exact Or.inl ⟨hlt, rfl, by simp⟩
  | advanceAsking s' t' hdata hseq hfits hlt => exact Or.inl ⟨hlt, rfl, by simp⟩
  | later s' t' hdata hseq hfits hsame =>
      right
      right
      refine ⟨rfl, hsame, ?_, fun _ => by omega, fun _ => by omega, fun _ _ => by omega⟩
      -- what is sent again is never from further on, so this is a piece sent for the first time
      unfold Packet.Honest at hp
      cases hflag : p.flag <;> rw [hflag] at hdata <;> simp only [hflag] at hp
      case data =>
        show 6 < 7
        omega
      case srejData => omega
      case timeoutData => omega
      all_goals cases hdata
  | finish hend hseq => exact Or.inr (Or.inl ⟨rfl, rfl, rfl⟩)
  | early t' hend hseq =>
      right
      right
      refine ⟨rfl, rfl, ?_, ?_, fun _ => by omega, ?_⟩
      · rw [hend]
        show 6 < 7
        omega
      · intro hdata
        rw [hend] at hdata
        cases hdata
      · intro hdata
        rw [hend] at hdata
        cases hdata
  | pass hdata hend =>
      right
      right
      refine ⟨rfl, rfl, Flag.weight_pos _, ?_, ?_, ?_⟩
      · intro hdata'
        rw [hdata] at hdata'
        cases hdata'
      · intro hflag
        have := hend hflag
        omega
      · intro hdata'
        rw [hdata] at hdata'
        cases hdata'

end Session

/-- A wait is over, and what was missed has not been sent again yet. -/
def Activity.Overdue (activity : Activity) : Prop := ∃ goal, activity = .overdue goal

/-- A wait of the upload has ended without a datagram, and the next has not begun. -/
def Upload.Late : Upload → Prop
  | .serving s .sending | .serving s (.listening _) | .serving s (.overdue _) => s.retry.count ≠ 0
  | _ => False

/-- What an upload sends when its wait is over: the oldest piece that waits, or the end. -/
def Serving.Resends (j : Consignment) (s : Serving) (p : Packet) : Prop :=
  p = ⟨UInt32.ofNat s.window.lower, .timeoutData, j.piece s.window.lower⟩ ∧
      s.window.lower < s.window.current ∨
    p = .control .endOfFile (j.last + 1) ∧ s.window.lower = j.last + 1

/-- No step leads back to where a wait is over: only a timer does. -/
theorem Serving.Goes.not_overdue {j : Consignment} {s s' : Serving} {activity activity' : Activity}
    {queue queue' : List Arrival} {sent : List Packet}
    (hg : s.Goes j activity queue (.next (.serving s' activity') queue' sent)) :
    ¬ activity'.Overdue := by
  rintro ⟨goal, rfl⟩
  cases hg

namespace Scenario

structure Talk where
  client : Address
  transfer : Address
  download : Download
  serving : Serving
  activity : Activity
  /-- What is pending for the client. -/
  toClient : List Arrival
  /-- What is pending for the transfer. -/
  toTransfer : List Arrival

namespace Talk

/-- Both have come as far as the view says, and no other transfer counts. -/
structure Sound (j : Job) (v : View) (k : Talk) : Prop where
  download : k.download.Keeps j v
  serving : k.serving.Keeps j v k.activity
  client : v.client = k.client
  horizon : v.horizon = k.serving.window.current
  ended : v.ended → k.serving.Ended
  toClient : ∀ x ∈ k.toClient, x.Honest j v
  toTransfer : ∀ x ∈ k.toTransfer, x.Honest j v

/-- The transfer comes on when it reads this. -/
def Advances (k : Talk) (x : Arrival) : Prop :=
  ∃ p, x.packet = .ok p ∧ x.source = k.client ∧
    (p.flag = .ack ∧ k.serving.window.lower ≤ p.seq ∨ p.flag = .eofAck)

/-- The client comes on when it reads this, or answers with what brings the transfer on. -/
def Prompts (k : Talk) (x : Arrival) : Prop :=
  ∃ p, x.packet = .ok p ∧ x.source = k.transfer ∧ ¬ k.download.Finished ∧
    (p.flag.isData = true ∧ (p.seq = k.download.next ∨
        p.seq < k.download.next ∧ k.serving.window.lower < k.download.next) ∨
      p.flag = .endOfFile ∧ p.seq = k.download.next)

/-- Something that is pending brings them on. -/
def Fruitful (k : Talk) : Prop :=
  (∃ x ∈ k.toTransfer, k.Advances x) ∨ ∃ x ∈ k.toClient, k.Prompts x

/-- The client confirms the end with this. -/
def Confirms (k : Talk) (x : Arrival) : Prop :=
  ∃ p, x.packet = .ok p ∧ x.source = k.client ∧ p.flag = .eofAck

/-- The client takes data or has the whole file, and what it has confirmed is not lost; the transfer has not
begun more waits than it may. -/
structure Lively (k : Talk) : Prop where
  peer : k.download.peer = k.transfer
  alive : k.download.Alive
  tries : k.serving.retry.count ≤ k.serving.retry.maxTries ∧ k.serving.retry.maxTries < limit32
  confirmed : k.download.Finished → k.activity = .done ∨ ∃ x ∈ k.toTransfer, k.Confirms x

/-- How far the two have to go. -/
def toGo (j : Job) (k : Talk) : Nat :=
  (j.last + 1 - k.download.next) + (j.last + 1 - k.serving.window.lower) +
    (if k.download.Finished then 0 else 1) +
    (if k.activity = .done then 0 else 1)

open Classical in
/-- What the two lack before something fruitful is pending: a wait that is over, and what is sent then. -/
noncomputable def lack (k : Talk) : Nat :=
  if k.activity.Overdue then 1 else if k.Fruitful then 0 else 2

/-- How much the transfer has not sent for the first time. -/
def unsent (j : Job) (s : Serving) : Nat :=
  (j.last + 1 - s.window.current) + (if s.eofNumber.isSome then 0 else 1)

/-- The transfer has packets to send before it can wait. -/
def Eager (s : Serving) : Goal → Prop
  | .more => True
  | .room => s.Open
  | .farewell => False

instance (s : Serving) (goal : Goal) : Decidable (Eager s goal) :=
  match goal with
  | .more => .isTrue trivial
  | .room => inferInstanceAs (Decidable s.Open)
  | .farewell => .isFalse id

/-- How urgent the next step of the transfer is. -/
def urge (s : Serving) (activity : Activity) (queue : List Arrival) : Nat :=
  match activity with
  | .sending => 2
  | .listening goal => if Eager s goal then 3 else 1
  | .waiting _ => if queue.isEmpty then 0 else 4
  | .overdue _ => 0
  | .done => 1

/-- Something will reach the transfer before nothing can happen any more. -/
def Hopeful (k : Talk) : Prop := k.Fruitful ∨ k.toTransfer ≠ []

/-- The transfer, with its own queue, has a try left for its next wait.  A wait that begins with the last try
must be sure to end with a datagram: it follows at once on what was sent again. -/
def Assured (k : Talk) (queue : List Arrival) : Prop :=
  2 ≤ k.serving.retry.maxTries ∧
    match k.activity with
    | .sending => k.serving.retry.count + 1 < k.serving.retry.maxTries
    | .listening goal => k.serving.retry.count + 1 < k.serving.retry.maxTries ∨
        1 ≤ k.serving.retry.count ∧ k.serving.retry.count < k.serving.retry.maxTries ∧
          ¬ Eager k.serving goal ∧ queue = [] ∧ k.Hopeful
    | .waiting _ => k.serving.retry.count < k.serving.retry.maxTries ∨ k.Hopeful
    | .overdue _ => 1 ≤ k.serving.retry.count ∧
        k.serving.retry.count < k.serving.retry.maxTries ∧ queue = []
    | .done => True

variable {j : Job} {v : View} {k k' : Talk}

theorem lack_le_two : k.lack ≤ 2 := by
  unfold lack
  split
  · omega
  · split <;> omega

/-- What is lacking does not grow while nothing fruitful is lost. -/
theorem lack_mono (htimely : k'.activity.Overdue ↔ k.activity.Overdue)
    (hfruitful : k.Fruitful → k'.Fruitful) : k'.lack ≤ k.lack := by
  unfold lack
  by_cases hoverdue : k.activity.Overdue
  · simp only [if_pos hoverdue, if_pos (htimely.mpr hoverdue), Nat.le_refl]
  · rw [if_neg hoverdue, if_neg (fun h => hoverdue (htimely.mp h))]
    by_cases h : k.Fruitful
    · simp only [if_pos h, if_pos (hfruitful h), Nat.le_refl]
    · rw [if_neg h]
      split <;> omega

theorem eager_of_goOn {s : Serving} {goal : Goal} (h : goal = .more ∨ goal = .room ∧ s.Open) :
    Eager s goal := by
  rcases h with rfl | ⟨rfl, hopen⟩
  · trivial
  · exact hopen

/-- A step that neither reads nor sends brings the transfer nearer to its next wait. -/
theorem urge_lt {s s' : Serving} {activity activity' : Activity} {queue : List Arrival}
    (hg : s.Goes j activity queue (.next (.serving s' activity') queue [])) :
    urge s' activity' queue < urge s activity queue := by
  cases hg with
  | closed _ hclosed =>
      have hcalm : ¬ Eager s .room := hclosed
      show (if Eager s .room then 3 else 1) < 2
      rw [if_neg hcalm]
      omega
  | goOn goal hgoal =>
      show 2 < (if Eager s goal then 3 else 1)
      rw [if_pos (eager_of_goOn hgoal)]
      omega
  | rest goal hgoal hpatient =>
      show 0 < (if Eager s goal then 3 else 1)
      split <;> omega
  | wake goal x queue =>
      show (if Eager _ goal then 3 else 1) < 4
      split <;> omega

/-! ## A step of the client -/

/-- The talk after the client has taken a step. -/
def heard (k : Talk) (download : Download) (toClient : List Arrival) (sent : List Packet) : Talk :=
  { k with
    download := download
    toClient := toClient
    toTransfer := k.toTransfer ++ sent.map fun p => ⟨k.client, p.frame⟩ }

theorem mem_heard {download : Download} {toClient : List Arrival} {sent : List Packet}
    {p : Packet} (h : p ∈ sent) :
    (⟨k.client, p.frame⟩ : Arrival) ∈ (k.heard download toClient sent).toTransfer :=
  List.mem_append_right _ (List.mem_map_of_mem h)

/-- How far the client comes by reading something: the talk goes on, and there is less to go, or less
that is pending and nothing fruitful lost. -/
structure ClientMoved (j : Job) (k k' : Talk) (queue queue' : List Arrival) (sent : List Packet) :
    Prop where
  lively : k'.Lively
  hopeful : k.Hopeful → k'.Hopeful
  less : k'.toGo j < k.toGo j ∨ k'.toGo j = k.toGo j ∧ k'.lack ≤ k.lack ∧
    load queue' + cost sent < load queue

/-- Something pending stays fruitful when both machines stay as they are, as far as it says. -/
theorem Fruitful.keep {k' : Talk} (h : k.Fruitful)
    (hadvances : ∀ x ∈ k.toTransfer, k.Advances x → k'.Fruitful)
    (hprompts : ∀ x ∈ k.toClient, k.Prompts x → k'.Fruitful) : k'.Fruitful := by
  rcases h with ⟨x, hx, hadv⟩ | ⟨x, hx, hprompt⟩
  · exact hadvances x hx hadv
  · exact hprompts x hx hprompt

/-- A client that has read something and stays as far as it was. -/
theorem clientMoved_of_still {d' : Download} {x : Arrival} {queue rest : List Arrival}
    {sent : List Packet} (hl : k.Lively) (hq : k.toClient = (x :: queue) ++ rest)
    (hpeer : d'.peer = k.download.peer) (halive : d'.Alive)
    (hnext : d'.next = k.download.next) (hfinished : d'.Finished ↔ k.download.Finished)
    (hx : k.Prompts x → (k.heard d' (queue ++ rest) sent).Fruitful)
    (hcost : cost sent < x.weight) :
    ClientMoved j k (k.heard d' (queue ++ rest) sent) (x :: queue) queue sent := by
  have hkept : ∀ y ∈ k.toTransfer, y ∈ (k.heard d' (queue ++ rest) sent).toTransfer :=
    fun y hy => List.mem_append_left _ hy
  have hfruit : k.Fruitful → (k.heard d' (queue ++ rest) sent).Fruitful := by
    intro h
    refine h.keep (fun y hy hadv => Or.inl ⟨y, hkept y hy, hadv⟩) fun y hy hprompt => ?_
    rw [hq] at hy
    rcases List.mem_cons.mp hy with rfl | hy
    · exact hx hprompt
    · obtain ⟨p, hp, hsource, hnot, hwhat⟩ := hprompt
      refine Or.inr ⟨y, hy, p, hp, hsource, fun h => hnot (hfinished.mp h), ?_⟩
      show p.flag.isData = true ∧ (p.seq = d'.next ∨
        p.seq < d'.next ∧ k.serving.window.lower < d'.next) ∨ p.flag = .endOfFile ∧ p.seq = d'.next
      rwa [hnext]
  refine ⟨⟨hpeer.trans hl.peer, halive, hl.tries, ?_⟩,
    Or.imp hfruit fun h => List.append_ne_nil_of_left_ne_nil h _,
    Or.inr ⟨?_, lack_mono Iff.rfl hfruit, ?_⟩⟩
  · intro h
    rcases hl.confirmed (hfinished.mp h) with h | ⟨y, hy, hconf⟩
    · exact Or.inl h
    · exact Or.inr ⟨y, hkept y hy, hconf⟩
  · unfold toGo
    show (j.last + 1 - d'.next) + _ + (if d'.Finished then 0 else 1) + _ = _
    simp only [hnext, hfinished]
    rfl
  · show load queue + cost sent < x.weight + load queue
    omega

/-- A client that has answered keeps the talk lively, if it has confirmed the end when it has the whole
file. -/
theorem lively_heard {d' : Download} {toClient : List Arrival} {sent : List Packet} (hl : k.Lively)
    (hpeer : d'.peer = k.download.peer) (halive : d'.Alive)
    (hconfirmed : d'.Finished → ∃ x ∈ (k.heard d' toClient sent).toTransfer, k.Confirms x) :
    (k.heard d' toClient sent).Lively :=
  ⟨hpeer.trans hl.peer, halive, hl.tries, fun h => Or.inr (hconfirmed h)⟩

/-- An answer gives hope. -/
theorem hopeful_heard {d' : Download} {toClient : List Arrival} {sent : List Packet}
    (hanswered : sent ≠ []) : (k.heard d' toClient sent).Hopeful := by
  obtain ⟨p, hp⟩ := List.exists_mem_of_ne_nil _ hanswered
  exact Or.inr (List.ne_nil_of_mem (mem_heard hp))

/-- How far the two have to go while the client takes data. -/
theorem toGo_receiving (hnot : ¬ k.download.Finished) : k.toGo j = (j.last + 1 - k.download.next) +
    (j.last + 1 - k.serving.window.lower) + 1 + (if k.activity = .done then 0 else 1) := by
  unfold toGo
  rw [if_neg hnot]

/-- How far they have to go after the client has taken a packet. -/
theorem toGo_heard_after (toClient : List Arrival) (r : Reply) (sent : List Packet) :
    (k.heard (k.download.after r) toClient sent).toGo j = (j.last + 1 - r.session.next) +
      (j.last + 1 - k.serving.window.lower) + (if r.complete = true then 0 else 1) +
        (if k.activity = .done then 0 else 1) := by
  unfold toGo
  show (j.last + 1 - (k.download.after r).next) + (j.last + 1 - k.serving.window.lower) +
    (if (k.download.after r).Finished then 0 else 1) + (if k.activity = .done then 0 else 1) = _
  simp only [Download.next_after k.download r, @Download.finished_after k.download r]

/-- Taking a packet brings the client on, or lightens what is pending. -/
theorem clientMoved_of_taken {x : Arrival} {queue rest : List Arrival} {p : Packet} {s : Session}
    {r : Reply} (hk : k.Sound j v) (hl : k.Lively) (hq : k.toClient = (x :: queue) ++ rest)
    (hstage : k.download.stage = .receiving s) (hp : x.packet = .ok p)
    (ht : s.Takes j v.horizon k.download.statistics p r) :
    ClientMoved j k (k.heard (k.download.after r) (queue ++ rest) r.packets) (x :: queue) queue
      r.packets := by
  have hhonest := (hk.toClient x (by simp [hq])).honest p hp
  have hsession : k.download.session = some s := by rw [Download.session, hstage]
  have hsnext := Download.next_of_session hsession
  have hfits := hk.download.fits.session s hsession
  obtain ⟨hfits', -⟩ := ht.fits hfits
  have hhigh := hfits'.next_le
  have hreached := hk.serving.fits.reached
  have hhorizon := hk.horizon
  have hlast := j.last_lt
  have hnot : ¬ k.download.Finished := by
    rintro ⟨s', hs'⟩
    rw [hstage] at hs'
    cases hs'
  have hnext' := Download.next_after k.download r
  have hfinished' := @Download.finished_after k.download r
  have halive : (k.download.after r).Alive := k.download.alive_after r
  have htoGo : k.toGo j = _ := toGo_receiving hnot
  rcases ht.outcome hhonest (hsnext ▸ hk.download.next.symm) with
    ⟨hlt, hc, hne⟩ | ⟨hc, hsame, hpackets⟩ | ⟨hc, hsame, hcost, hdata, hend, hold⟩
  · -- the client comes on
    refine ⟨lively_heard hl rfl halive fun h => ?_, fun _ => hopeful_heard hne, Or.inl ?_⟩
    · rw [hfinished', hc] at h
      cases h
    · rw [htoGo, toGo_heard_after, hc, if_neg Bool.false_ne_true]
      omega
  · -- the client confirms the end
    have hmem : Packet.control .eofAck s.next ∈ r.packets := by simp [hpackets]
    refine ⟨lively_heard hl rfl halive fun _ =>
      ⟨_, mem_heard hmem, _, Arrival.packet_frame (Nat.zero_le _), rfl, rfl⟩,
      fun _ => hopeful_heard (List.ne_nil_of_mem hmem), Or.inl ?_⟩
    rw [htoGo, toGo_heard_after, hc, if_pos rfl]
    omega
  · -- the client stays where it is; the packet was fruitful only if the answer to it is
    refine clientMoved_of_still hl hq rfl halive (by rw [hnext', hsame, hsnext]) ?_ ?_ ?_
    · rw [hfinished', hc]
      exact ⟨fun h => (by cases h), fun h => absurd h hnot⟩
    · rintro ⟨q, hq', -, -, hwhat⟩
      rw [hp] at hq'
      cases hq'
      rw [hsnext] at hwhat
      rcases hwhat with ⟨hflag, hseq | ⟨hseq, hlower⟩⟩ | ⟨hflag, hseq⟩
      · exact absurd hseq (hdata hflag)
      · have hpackets := hold hflag hseq
        refine Or.inl ⟨_, mem_heard (by rw [hpackets]; exact List.mem_cons_self), _,
          Arrival.packet_frame (Nat.zero_le _), rfl, Or.inl ⟨rfl, ?_⟩⟩
        rw [Packet.seq_control _ (by omega)]
        show k.serving.window.lower ≤ s.next - 1
        omega
      · exact absurd hseq (hend hflag)
    · rw [Arrival.weight_eq hp]
      exact hcost

/-- A client that takes data comes on with each step, or lightens what is pending. -/
theorem client_moved {d' : Download} {queue queue' rest : List Arrival} {sent : List Packet}
    {s : Session} (hk : k.Sound j v) (hl : k.Lively) (hq : k.toClient = queue ++ rest)
    (hstage : k.download.stage = .receiving s)
    (hg : Download.Goes j v.horizon k.download queue (.next d' queue' sent)) :
    ClientMoved j k (k.heard d' (queue' ++ rest) sent) queue queue' sent := by
  have hother : ∀ {stage : Stage}, k.download.stage = stage → stage = .receiving s :=
    fun h => h.symm.trans hstage
  cases hg with
  | ask _ h => cases hother h
  | beginWait _ h _ => cases hother h
  | ignoreAnswer _ _ _ h _ => cases hother h
  | granted _ _ _ h _ _ => cases hother h
  | standIn _ _ _ h _ _ => cases hother h
  | opened _ h => cases hother h
  | openedWith _ _ _ h _ => cases hother h
  | ignore x _ t s' h hignored =>
      refine clientMoved_of_still hl hq rfl (Or.inl ⟨s', h⟩) rfl Iff.rfl ?_ x.weight_pos
      rintro ⟨p, hp, hsource, -⟩
      rcases hignored with hne | hnone
      · exact absurd (hsource.trans hl.peer.symm) hne
      · exact absurd hp (hnone p)
  | take x _ p s' r h hsource hp ht =>
      exact clientMoved_of_taken hk hl hq h hp ht

/-! ## A step of the transfer -/

/-- The talk after the transfer has taken a step. -/
def told (k : Talk) (serving : Serving) (activity : Activity) (toTransfer : List Arrival)
    (sent : List Packet) : Talk :=
  { k with
    serving := serving
    activity := activity
    toTransfer := toTransfer
    toClient := k.toClient ++ sent.map fun p => ⟨k.transfer, p.frame⟩ }

/-- How far the transfer comes with a step. -/
structure TransferMoved (j : Job) (k k' : Talk) (queue queue' : List Arrival) (sent : List Packet) :
    Prop where
  lively : k'.Lively
  less : k'.toGo j < k.toGo j ∨ k'.toGo j = k.toGo j ∧ (k'.lack < k.lack ∨ k'.lack ≤ k.lack ∧
    (unsent j k'.serving < unsent j k.serving ∨ unsent j k'.serving = unsent j k.serving ∧
      (load queue' + cost sent < load queue ∨ load queue' + cost sent = load queue ∧
        urge k'.serving k'.activity queue' < urge k.serving k.activity queue)))

variable {s' : Serving} {activity' : Activity} {toTransfer queue queue' rest : List Arrival}
  {sent : List Packet}

theorem advances_of_confirms {x : Arrival} (h : k.Confirms x) : k.Advances x := by
  obtain ⟨p, hp, hsource, hflag⟩ := h
  exact ⟨p, hp, hsource, Or.inr hflag⟩

theorem prompts_told (hlower : s'.window.lower = k.serving.window.lower) {x : Arrival}
    (h : k.Prompts x) : (k.told s' activity' toTransfer sent).Prompts x := by
  obtain ⟨p, hp, hsource, hnot, hwhat⟩ := h
  refine ⟨p, hp, hsource, hnot, ?_⟩
  show p.flag.isData = true ∧ (p.seq = k.download.next ∨
    p.seq < k.download.next ∧ s'.window.lower < k.download.next) ∨
    p.flag = .endOfFile ∧ p.seq = k.download.next
  rwa [hlower]

/-- What is fruitful stays so as long as `lower` stays and nothing fruitful has been read. -/
theorem fruitful_told (hlower : s'.window.lower = k.serving.window.lower)
    (hkept : ∀ x ∈ k.toTransfer, x ∈ toTransfer ∨ ¬ k.Advances x) (h : k.Fruitful) :
    (k.told s' activity' toTransfer sent).Fruitful := by
  refine h.keep (fun x hx hadv => ?_) fun x hx hprompt => ?_
  · rcases hkept x hx with hx' | hnot
    · obtain ⟨p, hp, hsource, hwhat⟩ := hadv
      refine Or.inl ⟨x, hx', p, hp, hsource, ?_⟩
      show p.flag = .ack ∧ s'.window.lower ≤ p.seq ∨ p.flag = .eofAck
      rwa [hlower]
    · exact absurd hadv hnot
  · exact Or.inr ⟨x, List.mem_append_left _ hx, prompts_told hlower hprompt⟩

/-- The talk stays lively when a confirmation has not been lost. -/
theorem lively_told (hl : k.Lively) (hdone : k.activity ≠ .done)
    (hkept : ∀ x ∈ k.toTransfer, x ∈ toTransfer ∨ ¬ k.Confirms x)
    (htries : s'.retry.count ≤ s'.retry.maxTries ∧ s'.retry.maxTries < limit32) :
    (k.told s' activity' toTransfer sent).Lively where
  peer := hl.peer
  alive := hl.alive
  tries := htries
  confirmed h := by
    rcases hl.confirmed h with hnow | ⟨x, hx, hconf⟩
    · exact absurd hnow hdone
    · rcases hkept x hx with hx' | hnot
      · exact Or.inr ⟨x, hx', hconf⟩
      · exact absurd hconf hnot

/-- The transfer never begins more waits than it may. -/
theorem Lively.tries_told (hl : k.Lively)
    (hg : k.serving.Goes j k.activity queue (.next (.serving s' activity') queue' sent)) :
    s'.retry.count ≤ s'.retry.maxTries ∧ s'.retry.maxTries < limit32 := by
  obtain ⟨hmax, hcount⟩ := hg.within ⟨rfl, hl.tries.1⟩
  rw [hmax]
  exact ⟨hcount, hl.tries.2⟩

theorem toGo_told (hlower : s'.window.lower = k.serving.window.lower)
    (hdone : k.activity ≠ .done) (hdone' : activity' ≠ .done) :
    (k.told s' activity' toTransfer sent).toGo j = k.toGo j := by
  unfold toGo
  show _ + (j.last + 1 - s'.window.lower) + _ + (if activity' = .done then 0 else 1) = _
  rw [hlower, if_neg hdone, if_neg hdone']
  rfl

/-- What a transfer passes over does not bring it on. -/
theorem not_advances_of_pass (hk : k.Sound j v) {x : Arrival} (hx : x ∈ k.toTransfer)
    (hother : x.source ≠ k.serving.client ∨ ∀ p, x.packet = .ok p → ¬ k.serving.Tells p) :
    ¬ k.Advances x := by
  rintro ⟨p, hp, hsource, hwhat⟩
  have hclient := hk.serving.client
  have hhonest := (hk.toTransfer x hx).honest p hp
  rcases hother with hne | hnot
  · exact hne (by rw [hsource, hclient, hk.client])
  · refine hnot p hp ?_
    rcases hwhat with ⟨hflag, hlower⟩ | hflag
    · rw [Packet.Honest, hflag] at hhonest
      have hhorizon := hk.horizon
      have hone : 1 ≤ v.horizon := by
        rw [hhorizon]
        exact hk.serving.fits.one_le_current
      have hnext := Download.next_le hk.download.fits hone
      have hview := hk.download.next
      exact Or.inl ⟨hflag, hlower, by omega⟩
    · rw [Packet.Honest, hflag] at hhonest
      obtain ⟨hseq, hfinished⟩ := hhonest
      have hended := hk.ended (hk.download.ended (hk.download.finished.mp hfinished))
      obtain ⟨number, hnumber⟩ := Option.ne_none_iff_exists'.mp hended
      refine Or.inr (Or.inr ⟨hflag, ?_⟩)
      rw [hnumber, (hk.serving.fits.ended number hnumber).1, hseq]

/-- A step that leaves `lower` where it is and loses nothing fruitful counts if something goes out for the
first time, or what is pending gets lighter, or the next wait comes nearer. -/
theorem moved_of_steady (hl : k.Lively) (hdone : k.activity ≠ .done) (hdone' : activity' ≠ .done)
    (htimely : ¬ k.activity.Overdue) (htimely' : ¬ activity'.Overdue)
    (htries : s'.retry.count ≤ s'.retry.maxTries ∧ s'.retry.maxTries < limit32)
    (hlower : s'.window.lower = k.serving.window.lower)
    (hkept : ∀ x ∈ k.toTransfer, x ∈ toTransfer ∨ ¬ k.Advances x)
    (hless : unsent j s' < unsent j k.serving ∨ unsent j s' = unsent j k.serving ∧
      (load queue' + cost sent < load queue ∨ load queue' + cost sent = load queue ∧
        urge s' activity' queue' < urge k.serving k.activity queue)) :
    TransferMoved j k (k.told s' activity' toTransfer sent) queue queue' sent := by
  have hconfirms : ∀ x ∈ k.toTransfer, x ∈ toTransfer ∨ ¬ k.Confirms x := by
    intro x hx
    rcases hkept x hx with h | hnot
    · exact Or.inl h
    · exact Or.inr fun h => hnot (advances_of_confirms h)
  exact ⟨lively_told hl hdone hconfirms htries, Or.inr ⟨toGo_told hlower hdone hdone',
    Or.inr ⟨lack_mono (iff_of_false htimely' htimely) (fruitful_told hlower hkept), hless⟩⟩⟩

/-- A step that neither reads nor sends brings the next wait nearer. -/
theorem moved_of_still (hl : k.Lively) (hdone : k.activity ≠ .done) (hdone' : activity' ≠ .done)
    (htimely : ¬ k.activity.Overdue) (hq : k.toTransfer = queue ++ rest)
    (hwindow : s'.window = k.serving.window) (hend : s'.eofNumber = k.serving.eofNumber)
    (hg : k.serving.Goes j k.activity queue (.next (.serving s' activity') queue [])) :
    TransferMoved j k (k.told s' activity' (queue ++ rest) []) queue queue [] := by
  have hunsent : unsent j s' = unsent j k.serving := by
    unfold unsent
    rw [hwindow, hend]
  exact moved_of_steady hl hdone hdone' htimely hg.not_overdue (hl.tries_told hg) (by rw [hwindow])
    (fun x hx => Or.inl (hq ▸ hx)) (Or.inr ⟨hunsent, Or.inr ⟨rfl, urge_lt hg⟩⟩)

/-- A datagram that does not bring the transfer on lightens what is pending, as it weighs more than the
answer to it. -/
theorem moved_of_read (hl : k.Lively) {goal : Goal} {x : Arrival}
    (hactivity : k.activity = .listening goal) (hq : k.toTransfer = (x :: queue') ++ rest)
    (hnot : ¬ k.Advances x) (hwindow : s'.window = k.serving.window)
    (hend : s'.eofNumber = k.serving.eofNumber)
    (htries : s'.retry.count ≤ s'.retry.maxTries ∧ s'.retry.maxTries < limit32)
    (hcost : cost sent < x.weight) :
    TransferMoved j k (k.told s' (.listening goal) (queue' ++ rest) sent) (x :: queue') queue'
      sent := by
  refine moved_of_steady hl ?_ (by simp) ?_ (by simp [Activity.Overdue]) htries (by rw [hwindow]) ?_
    (Or.inr ⟨?_, Or.inl ?_⟩)
  · rw [hactivity]
    simp
  · rw [hactivity]
    simp [Activity.Overdue]
  · intro y hy
    rw [hq] at hy
    rcases List.mem_cons.mp hy with rfl | hy
    · exact Or.inr hnot
    · exact Or.inl hy
  · unfold unsent
    rw [hwindow, hend]
  · show load queue' + cost sent < x.weight + load queue'
    omega

/-- An acknowledgement that moves `lower` leaves less to go. -/
theorem moved_of_acked (hl : k.Lively) {goal : Goal} {x : Arrival} {p : Packet}
    (hactivity : k.activity = .listening goal) (hq : k.toTransfer = (x :: queue') ++ rest)
    (hp : x.packet = .ok p) (hflag : p.flag = .ack)
    (hlower : k.serving.window.lower < s'.window.lower) (hlast : k.serving.window.lower ≤ j.last)
    (htries : s'.retry.count ≤ s'.retry.maxTries ∧ s'.retry.maxTries < limit32) :
    TransferMoved j k (k.told s' (.listening goal) (queue' ++ rest) []) (x :: queue') queue' [] := by
  have hdone : k.activity ≠ .done := by
    rw [hactivity]
    simp
  have hkept : ∀ y ∈ k.toTransfer, y ∈ queue' ++ rest ∨ ¬ k.Confirms y := by
    intro y hy
    rw [hq] at hy
    rcases List.mem_cons.mp hy with rfl | hy
    · refine Or.inr fun ⟨p', hp', _, hflag'⟩ => ?_
      rw [hp] at hp'
      cases hp'
      rw [hflag] at hflag'
      cases hflag'
    · exact Or.inl hy
  have hdone' : Activity.listening goal ≠ .done := by simp
  refine ⟨lively_told hl hdone hkept htries, Or.inl ?_⟩
  unfold toGo
  show (j.last + 1 - k.download.next) + (j.last + 1 - s'.window.lower) +
    (if k.download.Finished then 0 else 1) +
    (if Activity.listening goal = .done then 0 else 1) < _
  rw [if_neg hdone, if_neg hdone']
  omega

/-- The confirmation of the end leaves less to go. -/
theorem moved_of_confirmed (hl : k.Lively) (hdone : k.activity ≠ .done) :
    TransferMoved j k (k.told k.serving .done toTransfer sent) queue queue' sent := by
  refine ⟨⟨hl.peer, hl.alive, hl.tries, fun _ => Or.inl rfl⟩, Or.inl ?_⟩
  unfold toGo
  show (j.last + 1 - k.download.next) + (j.last + 1 - k.serving.window.lower) +
    (if k.download.Finished then 0 else 1) + 0 < _
  rw [if_neg hdone]
  omega

/-! ## What a transfer sends when its wait is over -/

/-- What a transfer sends when its wait is over brings the client on, or is answered with what brings the
transfer on. -/
theorem prompts_of_overdue (hk : k.Sound j v) (hnot : ¬ k.download.Finished) {p : Packet}
    (hp : k.serving.Resends j p) :
    k.Prompts ⟨k.transfer, p.frame⟩ := by
  have hfits := hk.serving.fits
  have hlast := j.last_lt
  have hlower := hk.serving.lower
  have hnext := hk.download.next
  have hreached := hfits.reached
  have hhorizon : k.download.next ≤ k.serving.window.current := by
    rw [← hk.horizon]
    refine Download.next_le hk.download.fits ?_
    rw [hk.horizon]
    exact hfits.one_le_current
  rcases hp with ⟨rfl, hheld⟩ | ⟨rfl, hall⟩
  · have hseq : Packet.seq ⟨UInt32.ofNat k.serving.window.lower, .timeoutData,
        j.piece k.serving.window.lower⟩ = k.serving.window.lower :=
      Packet.seq_control .timeoutData (by omega)
    refine ⟨_, Arrival.packet_frame (j.length_piece _), rfl, hnot, Or.inl ⟨rfl, ?_⟩⟩
    rw [hseq]
    omega
  · refine ⟨_, Arrival.packet_frame (Nat.zero_le _), rfl, hnot, Or.inr ⟨rfl, ?_⟩⟩
    rw [Packet.seq_control _ (by omega)]
    omega

/-- After that something fruitful is pending. -/
theorem fruitful_resent (hk : k.Sound j v) (hl : k.Lively) (hdone : k.activity ≠ .done)
    (hlower : s'.window.lower = k.serving.window.lower)
    (hkept : ∀ x ∈ k.toTransfer, x ∈ toTransfer) {p : Packet}
    (hp : k.serving.Resends j p) :
    (k.told s' activity' toTransfer [p]).Fruitful := by
  by_cases hfinished : k.download.Finished
  · -- the client has confirmed the end, and this has not been read yet
    rcases hl.confirmed hfinished with h | ⟨x, hx, hconf⟩
    · exact absurd h hdone
    · exact fruitful_told hlower (fun y hy => Or.inl (hkept y hy))
        (Or.inl ⟨x, hx, advances_of_confirms hconf⟩)
  · exact Or.inr ⟨⟨k.transfer, p.frame⟩, List.mem_append_right _ List.mem_cons_self,
      prompts_told hlower (prompts_of_overdue hk hfinished hp)⟩

theorem moved_of_resent (hk : k.Sound j v) (hl : k.Lively) {goal : Goal}
    (hoverdue : k.activity = .overdue goal) (hlower : s'.window.lower = k.serving.window.lower)
    (htries : s'.retry.count ≤ s'.retry.maxTries ∧ s'.retry.maxTries < limit32)
    (hkept : ∀ x ∈ k.toTransfer, x ∈ toTransfer) {p : Packet}
    (hp : k.serving.Resends j p) :
    TransferMoved j k (k.told s' (.listening goal) toTransfer [p]) queue queue' [p] := by
  have hdone : k.activity ≠ .done := by
    rw [hoverdue]
    simp
  have hlistening : ¬ (k.told s' (.listening goal) toTransfer [p]).activity.Overdue := by
    rintro ⟨_, h⟩
    cases h
  refine ⟨lively_told hl hdone (fun x hx => Or.inl (hkept x hx)) htries,
    Or.inr ⟨toGo_told hlower hdone (by simp), Or.inl ?_⟩⟩
  unfold lack
  rw [if_neg hlistening, if_pos (fruitful_resent hk hl hdone hlower hkept hp),
    if_pos (show k.activity.Overdue from ⟨goal, hoverdue⟩)]
  exact Nat.zero_lt_one

/-! ## A step of the transfer, summed up -/

/-- A transfer comes on with each step, or sends what is fruitful or has not been sent before, or lightens
what is pending, or comes nearer to its next wait. -/
theorem transfer_moved (hk : k.Sound j v) (hl : k.Lively) (hq : k.toTransfer = queue ++ rest)
    (hg : k.serving.Goes j k.activity queue (.next (.serving s' activity') queue' sent)) :
    TransferMoved j k (k.told s' activity' (queue' ++ rest) sent) queue queue' sent := by
  have hdoing := hk.serving.doing
  have hreached := hk.serving.fits.reached
  have hall : ∀ x ∈ k.toTransfer, x ∈ queue ++ rest ∨ ¬ k.Advances x :=
    fun x hx => Or.inl (hq ▸ hx)
  have hkept : ∀ x ∈ k.toTransfer, x ∈ queue ++ rest := fun x hx => hq ▸ hx
  have htries := hl.tries_told hg
  have htimely' := hg.not_overdue
  have hgoes := hg
  generalize hactivity : k.activity = activity at hg hdoing
  have htimely : (∀ goal, activity ≠ .overdue goal) → ¬ k.activity.Overdue :=
    fun h ⟨goal, hgoal⟩ => h goal (hactivity ▸ hgoal)
  cases hg with
  | piece _ hopen hmore =>
      refine moved_of_steady hl (by simp [hactivity]) (by simp) (htimely (by simp)) htimely' htries
        rfl hall (Or.inl ?_)
      show (j.last + 1 - (k.serving.window.current + 1)) +
        (if k.serving.eofNumber.isSome then 0 else 1) < _
      unfold unsent
      omega
  | announce _ hopen hend =>
      refine moved_of_steady hl (by simp [hactivity]) (by simp) (htimely (by simp)) htimely' htries
        rfl hall (Or.inl ?_)
      have hnone : k.serving.eofNumber = none := Classical.not_not.mp hdoing
      unfold unsent
      rw [hnone]
      show (j.last + 1 - k.serving.window.current) + 0 < (j.last + 1 - k.serving.window.current) + 1
      omega
  | closed =>
      exact moved_of_still hl (by simp [hactivity]) (by simp) (htimely (by simp)) hq rfl rfl hgoes
  | pass goal x _ t hsame hother =>
      exact moved_of_read hl hactivity hq (not_advances_of_pass hk (by simp [hq]) hother) rfl rfl
        htries x.weight_pos
  | acked goal x _ p hsource hp hflag hseq =>
      obtain ⟨hlow, hhigh⟩ := hseq
      exact moved_of_acked hl hactivity hq hp hflag (Nat.lt_succ_of_le hlow) (by omega) htries
  | asked goal x _ p hsource hp hflag hseq =>
      refine moved_of_read hl hactivity hq ?_ rfl rfl htries ?_
      · rintro ⟨p', hp', -, hwhat⟩
        rw [hp] at hp'
        cases hp'
        rw [hflag] at hwhat
        simp at hwhat
      · rw [Arrival.weight_eq hp, hflag]
        show 4 < 5
        omega
  | confirmed goal x _ p hsource hp hflag hseq =>
      exact moved_of_confirmed hl (by simp [hactivity])
  | goOn =>
      exact moved_of_still hl (by simp [hactivity]) (by simp) (htimely (by simp)) hq rfl rfl hgoes
  | rest =>
      exact moved_of_still hl (by simp [hactivity]) (by simp) (htimely (by simp)) hq rfl rfl hgoes
  | wake =>
      exact moved_of_still hl (by simp [hactivity]) (by simp) (htimely (by simp)) hq rfl rfl hgoes
  | again goal _ hheld =>
      have hlower : (k.serving.sentAgain .timeoutData).window.lower = k.serving.window.lower := rfl
      exact moved_of_resent hk hl hactivity hlower htries hkept (Or.inl ⟨rfl, hheld⟩)
  | announceAgain _ hallAcked =>
      obtain ⟨number, hnumber⟩ := Option.ne_none_iff_exists'.mp hdoing
      have hlower : (k.serving.saidEnd j.toConsignment).window.lower = k.serving.window.lower := rfl
      exact moved_of_resent hk hl hactivity hlower htries hkept
        (Or.inr ⟨rfl, hallAcked.trans (hk.serving.fits.ended number hnumber).2⟩)

/-! ## Tries that are left -/

/-- An upload that sends again when its wait is over has nothing to send for the first time. -/
theorem not_eager_of_overdue {s : Serving} {goal : Goal} (h : s.Doing (.overdue goal)) :
    ¬ Eager s goal := by
  cases goal with
  | more => exact h.elim
  | room => exact h.2
  | farewell => exact id

/-- A transfer that is assured of a try does not give the client up. -/
theorem Assured.patient (h : k.Assured []) (hl : k.Lively) {goal : Goal}
    (hlistening : k.activity = .listening goal) : k.serving.retry.Patient := by
  obtain ⟨-, htry⟩ := h
  rw [hlistening] at htry
  have htries := hl.tries.2
  rcases htry with h | ⟨-, h, -⟩
  · exact ⟨by omega, by omega⟩
  · exact ⟨h, by omega⟩

/-- What was sent again makes the next wait end with a datagram, so the last try may be used for it. -/
theorem Assured.resent (h : k.Assured queue) (hk : k.Sound j v) (hl : k.Lively) {goal : Goal}
    (hoverdue : k.activity = .overdue goal) (hwindow : s'.window = k.serving.window)
    (hretry : s'.retry = k.serving.retry) (hcalm : ¬ Eager s' goal)
    (hkept : ∀ x ∈ k.toTransfer, x ∈ toTransfer) {p : Packet} (hp : k.serving.Resends j p) :
    (k.told s' (.listening goal) toTransfer [p]).Assured queue := by
  obtain ⟨htwo, htry⟩ := h
  rw [hoverdue] at htry
  obtain ⟨hone, hless, hempty⟩ := htry
  have hdone : k.activity ≠ .done := by
    rw [hoverdue]
    simp
  have hfruitful : (k.told s' (.listening goal) toTransfer [p]).Fruitful :=
    fruitful_resent hk hl hdone (by rw [hwindow]) hkept hp
  rw [← hretry] at htwo hone hless
  exact ⟨htwo, Or.inr ⟨hone, hless, hcalm, hempty, Or.inl hfruitful⟩⟩

/-- A step of the transfer leaves it a try. -/
theorem assured_told (hk : k.Sound j v) (hl : k.Lively) (hq : k.toTransfer = queue ++ rest)
    (hg : k.serving.Goes j k.activity queue (.next (.serving s' activity') queue' sent))
    (h : k.Assured queue) : (k.told s' activity' (queue' ++ rest) sent).Assured queue' := by
  have hassured := h
  obtain ⟨htwo, htry⟩ := h
  have hdoing := hk.serving.doing
  have hkept : ∀ x ∈ k.toTransfer, x ∈ queue ++ rest := fun x hx => hq ▸ hx
  generalize hactivity : k.activity = activity at hg hdoing htry
  cases hg with
  | piece => exact ⟨htwo, Or.inl htry⟩
  | announce => exact ⟨htwo, Or.inl htry⟩
  | closed => exact ⟨htwo, Or.inl htry⟩
  | pass goal x _ t => exact ⟨htwo, Or.inl (htry.resolve_right (by simp))⟩
  | acked goal x _ p => exact ⟨htwo, Or.inl (htry.resolve_right (by simp))⟩
  | asked goal x _ p => exact ⟨htwo, Or.inl (htry.resolve_right (by simp))⟩
  | confirmed => exact ⟨htwo, trivial⟩
  | goOn goal hgoal =>
      exact ⟨htwo, htry.resolve_right fun h => h.2.2.1 (eager_of_goOn hgoal)⟩
  | rest goal hgoal hpatient =>
      refine ⟨htwo, ?_⟩
      rcases htry with h | ⟨-, -, -, -, hhopeful⟩
      · exact Or.inl h
      · refine Or.inr (hhopeful.imp ?_ fun h => ?_)
        · exact fruitful_told rfl fun x hx => Or.inl (hkept x hx)
        · rwa [hq] at h
  | wake goal x queue =>
      refine ⟨htwo, Or.inl ?_⟩
      show 0 + 1 < k.serving.retry.maxTries
      omega
  | again goal _ hheld =>
      exact hassured.resent hk hl hactivity rfl rfl (not_eager_of_overdue hdoing) hkept
        (Or.inl ⟨rfl, hheld⟩)
  | announceAgain _ hallAcked =>
      obtain ⟨number, hnumber⟩ := Option.ne_none_iff_exists'.mp hdoing
      exact hassured.resent hk hl hactivity rfl rfl id hkept
        (Or.inr ⟨rfl, hallAcked.trans (hk.serving.fits.ended number hnumber).2⟩)

/-- Whoever else moves leaves the transfer its try, if nothing is put into its queue while it is late. -/
theorem Assured.keep {queue : List Arrival} (h : k.Assured queue)
    (hserving : k'.serving = k.serving) (hactivity : k'.activity = k.activity)
    (hhopeful : k.Hopeful → k'.Hopeful)
    (hlate : Upload.Late (.serving k.serving k.activity) → queue' = queue) :
    k'.Assured queue' := by
  obtain ⟨htwo, htry⟩ := h
  unfold Assured
  rw [hserving, hactivity]
  refine ⟨htwo, ?_⟩
  cases hnow : k.activity with
  | sending =>
      rw [hnow] at htry
      exact htry
  | done => trivial
  | waiting goal =>
      rw [hnow] at htry
      exact htry.imp_right hhopeful
  | listening goal =>
      rw [hnow] at htry hlate
      refine htry.imp_right fun ⟨hone, hless, hcalm, hempty, hhope⟩ => ?_
      exact ⟨hone, hless, hcalm, (hlate (by unfold Upload.Late; omega)).trans hempty, hhopeful hhope⟩
  | overdue goal =>
      rw [hnow] at htry hlate
      obtain ⟨hone, hless, hempty⟩ := htry
      exact ⟨hone, hless, (hlate (by unfold Upload.Late; omega)).trans hempty⟩

/-! ## A wait that is over -/

theorem not_fruitful_of_nil (hclient : k.toClient = []) (htransfer : k.toTransfer = []) :
    ¬ k.Fruitful := by
  rintro (⟨x, hx, -⟩ | ⟨x, hx, -⟩)
  · rw [htransfer] at hx
    cases hx
  · rw [hclient] at hx
    cases hx

/-- When nothing is pending and the wait of the transfer is over, the two lack one thing less. -/
theorem lack_overdue {goal : Goal} (hwaiting : k.activity = .waiting goal)
    (hclient : k.toClient = []) (htransfer : k.toTransfer = []) :
    Talk.lack { k with activity := .overdue goal } < k.lack := by
  have hwaits : ¬ k.activity.Overdue := by
    rintro ⟨goal', h⟩
    rw [hwaiting] at h
    cases h
  unfold lack
  rw [if_pos ⟨goal, rfl⟩, if_neg hwaits, if_neg (not_fruitful_of_nil hclient htransfer)]
  exact Nat.one_lt_two

theorem toGo_overdue {goal : Goal} (hwaiting : k.activity = .waiting goal) :
    Talk.toGo j { k with activity := .overdue goal } = k.toGo j := by
  unfold toGo
  rw [hwaiting]
  simp

theorem Lively.overdue (hl : k.Lively) {goal : Goal} (hwaiting : k.activity = .waiting goal) :
    Lively { k with activity := .overdue goal } where
  peer := hl.peer
  alive := hl.alive
  tries := hl.tries
  confirmed h := by
    rcases hl.confirmed h with hdone | hconf
    · rw [hwaiting] at hdone
      cases hdone
    · exact Or.inr hconf

/-- A wait in which nothing came was not the last. -/
theorem Assured.overdue {queue : List Arrival} (h : k.Assured queue) (hk : k.Sound j v)
    {goal : Goal} (hwaiting : k.activity = .waiting goal) (hclient : k.toClient = [])
    (htransfer : k.toTransfer = []) : Assured { k with activity := .overdue goal } [] := by
  obtain ⟨htwo, htry⟩ := h
  have hdoing := hk.serving.doing
  rw [hwaiting] at htry hdoing
  have hone : 1 ≤ k.serving.retry.count := by
    cases goal with
    | more => exact hdoing.elim
    | room => exact hdoing.2.2
    | farewell => exact hdoing.2
  rcases htry with hless | hfruitful | hpending
  · exact ⟨htwo, hone, hless, rfl⟩
  · exact absurd hfruitful (not_fruitful_of_nil hclient htransfer)
  · exact absurd htransfer hpending

/-! ## A datagram that arrives -/

/-- Only what is pending counts, not in which order. -/
theorem Lively.of_same_pending {toClient toTransfer : List Arrival} (hl : k.Lively)
    (hclient : ∀ x, x ∈ toClient ↔ x ∈ k.toClient)
    (htransfer : ∀ x, x ∈ toTransfer ↔ x ∈ k.toTransfer) :
    Lively { k with toClient := toClient, toTransfer := toTransfer } ∧
      (k.Fruitful → Fruitful { k with toClient := toClient, toTransfer := toTransfer }) ∧
      (k.Hopeful → Hopeful { k with toClient := toClient, toTransfer := toTransfer }) := by
  have hfruitful : k.Fruitful →
      Fruitful { k with toClient := toClient, toTransfer := toTransfer } := by
    rintro (⟨x, hx, h⟩ | ⟨x, hx, h⟩)
    · exact Or.inl ⟨x, (htransfer x).mpr hx, h⟩
    · exact Or.inr ⟨x, (hclient x).mpr hx, h⟩
  refine ⟨⟨hl.peer, hl.alive, hl.tries, ?_⟩, hfruitful, Or.imp hfruitful fun h => ?_⟩
  · intro h
    rcases hl.confirmed h with h | ⟨x, hx, hconf⟩
    · exact Or.inl h
    · exact Or.inr ⟨x, (htransfer x).mpr hx, hconf⟩
  · obtain ⟨x, hx⟩ := List.exists_mem_of_ne_nil _ h
    exact List.ne_nil_of_mem ((htransfer x).mpr hx)

end Talk

end Scenario

end SelectiveReject
