import SelectiveReject.Proofs.Noise
import Mathlib.Data.List.Forall2

/-!
# Whatever arrives wakes an upload

An upload that waits wakes up when anything arrives, before it has looked at it, and forgets the waits that
have timed out.  So noise sets its timer back (`noise_postpones`):

```
wait 600, noise, wait 600     nothing is sent
wait 600,        wait 600     the oldest packet is sent again, after 1000
```

But that is all that noise does.  What an upload sends, and how it ends, depends on when something arrives,
and on what counts of it (`arrivals_wake`): a trial can be followed by one that is told no more (`perceive`).
-/

namespace SelectiveReject

open Scenario Arrival

namespace Upload

variable {client : Address} {u u' : Upload} {queue queue' : List Arrival} {sent : List Packet}

/-- The upload serves the client, and when it waits there is nothing else that it could do. -/
def Watches (client : Address) (u : Upload) : Prop :=
  u.client = client ∧ ∀ s goal, u = .serving s (.waiting goal) → s.Stuck goal ∧ 1 ≤ s.retry.maxTries

theorem Watches.step (h : u.Watches client) (hstep : Machine.step u queue = .next u' queue' sent) :
    u'.Watches client := by
  refine ⟨(steps_of_step hstep).client.trans h.1, ?_⟩
  rintro s goal rfl
  match u with
  | .refused .. => cases hstep
  | .opening config request client source =>
      rcases step_fresh config request client source queue with ⟨size, hfail⟩ | hrefused | ⟨s, hserving, -⟩
      · cases hfail.symm.trans hstep
      · cases hrefused.symm.trans hstep
      · cases hserving.symm.trans hstep
  | .serving s₀ activity =>
      have hturns := s₀.step_turns activity queue
      have hstep' : s₀.step queue activity = .next (.serving s (.waiting goal)) queue' sent := hstep
      rw [hstep'] at hturns
      cases hturns with
      | hear _ _ _ _ _ _ _ hactivity => rcases hactivity with hactivity | hactivity <;> cases hactivity
      | await _ _ hpatient =>
          have hstuck : s₀.Stuck goal := stuck_of_heardAll hstep'
          exact ⟨hstuck, Nat.lt_of_le_of_lt (Nat.zero_le _) hpatient⟩

theorem Watches.expire (h : u.Watches client) : (Machine.expire u).Watches client := by
  match u with
  | .serving s (.waiting goal) => exact ⟨h.1, fun s' goal' hs => by cases hs⟩
  | .opening .. | .refused .. | .serving _ .sending | .serving _ (.listening _) | .serving _ (.overdue _)
  | .serving _ .done => exact h

/-- An upload that has been woken goes through what has arrived. -/
def wake : Upload → Upload
  | .serving s (.waiting goal) => .serving { s with retry := s.retry.reset } (.listening goal)
  | u => u

theorem Watches.wake (h : u.Watches client) : u.wake.Watches client := by
  match u with
  | .serving s (.waiting goal) => exact ⟨h.1, fun s' goal' hs => by cases hs⟩
  | .opening .. | .refused .. | .serving _ .sending | .serving _ (.listening _) | .serving _ (.overdue _)
  | .serving _ .done => exact h

end Upload

namespace Scenario

/-- The same time passes; or something arrives in both, or nothing in both, and the same of it counts. -/
def Action.Agree (client : Address) : Action → Action → Prop
  | .wait time, .wait time' => time = time'
  | .send batch, .send batch' =>
      heard (some client) batch = heard (some client) batch' ∧ (batch = [] ↔ batch' = [])
  | .wait _, .send _ | .send _, .wait _ => False

/-- What counts of an action. -/
def Action.heard (client : Address) : Action → Action
  | .wait time => .wait time
  | .send batch => .send (SelectiveReject.heard (some client) batch)

namespace Station

variable {link : Link} {now : Nat} {station station₁ : Station Upload} {faults faults₁ : FaultModel}
  {left : List Departure} {s : Serving} {goal : Goal}

/-- The upload is woken, and finds what counts of the datagrams that have arrived. -/
def sense (client : Address) (s : Station Upload) (batch : List Arrival) : Station Upload :=
  { s with
    machine := s.machine.wake
    queue := s.queue ++ heard (some client) batch }

/-- A waiting upload that finds something comes to what it comes to when it is woken. -/
theorem Comes.woken (h : station.Comes link now faults station₁ faults₁ left)
    (hmachine : station.machine = .serving s (.waiting goal)) (hqueue : station.queue ≠ [])
    (hpeer : station.channel.peer = s.client) :
    Comes link now ⟨station.machine.wake, station.channel, station.queue, station.deadline, none⟩ faults
      station₁ faults₁ left := by
  obtain ⟨x, rest, hrest⟩ := List.exists_cons_of_ne_nil hqueue
  have hwake : Machine.step station.machine station.queue =
      .next station.machine.wake station.queue [] := by
    rw [hmachine, hrest]
    rfl
  have hclient : { station.channel with peer := Machine.peer station.machine.wake } = station.channel := by
    rw [hmachine]
    show { station.channel with peer := s.client } = station.channel
    rw [← hpeer]
  cases h with
  | waits _ _ hstep | stops _ _ _ hstep => cases hwake.symm.trans hstep
  | fails _ _ _ _ _ _ _ _ _ hstep hsend =>
      cases hwake.symm.trans hstep
      cases hsend
  | goes _ _ _ _ _ _ _ _ _ _ _ hstep hsend hcomes =>
      cases hwake.symm.trans hstep
      cases hsend
      rw [hclient] at hcomes
      exact hcomes

/-- Noise is passed over, and then the upload is in a first wait in a row. -/
theorem noise_comes (hstuck : s.Stuck goal) (hcount : s.retry.count = 0) (hpatient : 1 ≤ s.retry.maxTries)
    {channel : Channel} (hpeer : channel.peer = s.client) (deadline : Option Nat) (batch : List Arrival)
    (hnoise : heard (some s.client) batch = []) :
    Comes link now ⟨Upload.serving s (.listening goal), channel, batch, deadline, none⟩ faults
      ⟨Upload.serving (s.damaged (damage (some s.client) batch)).rested (.waiting goal), channel, [],
        some (now + s.shortTimeout), none⟩ faults [] := by
  have hclient : { channel with peer := s.client } = channel := by
    rw [← hpeer]
  induction batch generalizing s with
  | nil =>
      have hstep := Serving.listening_rested 0 hstuck hcount hpatient
      refine .goes _ faults _ _ _ channel faults [] _ _ [] hstep ?_ (.waits _ _ rfl)
      show (Except.ok (), { channel with peer := s.client }, faults, []) = _
      rw [hclient]
  | cons x rest ih =>
      have hinvalid := not_valid_of_heard_nil hnoise
      rw [heard_cons_invalid hinvalid] at hnoise
      have hcomes := @ih (s.damaged (x.damage (some s.client))) hstuck hcount hpatient hpeer hnoise hclient
      have hdamage : damage (some s.client) (x :: rest) =
          x.damage (some s.client) + damage (some s.client) rest := rfl
      rw [Serving.damaged_damaged] at hcomes
      rw [hdamage]
      refine .goes _ faults _ _ _ channel faults [] _ _ [] (Serving.hear_noise hinvalid goal rest) ?_ hcomes
      show (Except.ok (), { channel with peer := s.client }, faults, []) = _
      rw [hclient]

end Station

/-! ## The trial that is told no more -/

namespace Trial

variable {client : Address} {t o : Trial Upload} {count : Nat}

/-- The upload is woken when something arrives, but finds only what counts. -/
def sense (client : Address) (t : Trial Upload) : Action → Trial Upload × List Departure
  | .send batch =>
      if t.known && !batch.isEmpty then { t with station := t.station.sense client batch }.settle
      else (t, [])
  | .wait milliseconds => t.act (.wait milliseconds)

/-- Goes through a script in this way, up to the action in which the upload ends. -/
def perceive (client : Address) (t : Trial Upload) : List Action → Trial Upload × List (List Departure)
  | [] => (t, [])
  | action :: rest =>
      if t.station.ended then (t, [])
      else
        let (t, left) := t.sense client action
        let (t, more) := t.perceive client rest
        (t, left :: more)

/-- Scripts that agree are perceived alike. -/
theorem sense_agree {action action' : Action} (h : action.Agree client action') (t : Trial Upload) :
    t.sense client action = t.sense client action' := by
  match action, action' with
  | .wait time, .wait time' => rw [show time = time' from h]
  | .send batch, .send batch' =>
      have hempty : batch.isEmpty = batch'.isEmpty := by
        rw [Bool.eq_iff_iff, List.isEmpty_iff, List.isEmpty_iff]
        exact h.2
      have hsense : t.station.sense client batch = t.station.sense client batch' := by
        unfold Station.sense
        rw [show heard (some client) batch = heard (some client) batch' from h.1]
      show (if (t.known && !batch.isEmpty) = true then _ else _) = (if (t.known && !batch'.isEmpty) = true
        then _ else _)
      rw [hempty, hsense]

theorem perceive_agree {script script' : List Action}
    (h : List.Forall₂ (Action.Agree client) script script') :
    ∀ t : Trial Upload, t.perceive client script = t.perceive client script' := by
  induction h with
  | nil => exact fun _ => rfl
  | cons haction _ ih =>
      intro t
      simp only [perceive, sense_agree haction, ih]

/-- The two trials differ only in the damaged datagrams that have been counted, and the second waits, as long
as it has not ended. -/
structure Shadows (client : Address) (count : Nat) (t o : Trial Upload) : Prop where
  link : t.link = o.link
  faults : t.faults = o.faults
  now : t.now = o.now
  known : t.known = o.known
  station : Station.Echo count t.station o.station
  watches : o.station.machine.Watches client
  waits : o.station.result = none → ∃ s goal, o.station.machine = .serving s (.waiting goal)
  peer : o.station.result = none → o.station.channel.peer = o.station.machine.client
  ended : o.station.result ≠ none → o.station.deadline = none

/-- What a trial comes to shadows what the trial comes to that it follows. -/
theorem shadows_of_comes {s : Station Upload}
    (hcomes : s.Comes t.link t.now t.faults t.settle.1.station t.settle.1.faults t.settle.2)
    (hlink : t.link = o.link) (hnow : t.now = o.now) (hfaults : t.faults = o.faults)
    (hknown : t.known = o.known)
    (hsim : Upload.Trails count s.machine s.queue o.station.machine o.station.queue)
    (hchannel : s.channel = o.station.channel) (hpeer : o.station.channel.peer = o.station.machine.client)
    (hrunning : s.result = none) (hrunning' : o.station.result = none)
    (hwatches : o.station.machine.Watches client) :
    t.settle.2 = o.settle.2 ∧ ∃ count', Shadows client count' t.settle.1 o.settle.1 := by
  rw [hlink, hnow, hfaults] at hcomes
  obtain ⟨read, hleft, hfaults₁, -, -, hecho⟩ :=
    settle_echo Upload.settles.bounded Upload.follows hcomes hsim hchannel hpeer hrunning hrunning'
  have hcomes' := settle_comes Upload.settles.bounded o
  refine ⟨hleft, _, hlink, hfaults₁, hnow, ?_, hecho, ?_, fun hnone => ?_, fun hnone => ?_,
    hcomes'.ended hrunning'⟩
  · show (t.known || !t.settle.2.isEmpty) = (o.known || !o.settle.2.isEmpty)
    rw [hknown, hleft]
  · exact hcomes'.keeps (fun _ _ _ _ _ h hstep => h.step hstep) hwatches
  · obtain ⟨-, s, goal, hmachine⟩ := Upload.waiting_of_step (hcomes'.atRest hpeer hnone).waits
    exact ⟨s, goal, hmachine⟩
  · exact (hcomes'.atRest hpeer hnone).peer

variable (h : Shadows client count t o)
include h

theorem Shadows.running (hrunning : t.station.result = none) : o.station.result = none := by
  have hresult := h.station.result
  rw [hrunning] at hresult
  exact Option.map_eq_none_iff.mp hresult.symm

/-- What arrives wakes both, and what does not count makes no difference. -/
theorem Shadows.send (hrunning : t.station.result = none) (batch : List Arrival) :
    (t.act (.send batch)).2 = (o.sense client (.send batch)).2 ∧
      ∃ count', Shadows client count' (t.act (.send batch)).1 (o.sense client (.send batch)).1 := by
  have hrunning' := h.running hrunning
  by_cases harrives : o.known = true ∧ batch ≠ []
  · obtain ⟨hknown, hsome⟩ := harrives
    obtain ⟨s, goal, hmachine⟩ := h.waits hrunning'
    obtain ⟨hqueue, hqueue'⟩ := h.station.queue hrunning
    have hclient : s.client = client := by
      have := h.watches.1
      rw [hmachine] at this
      exact this
    have hpeer := h.peer hrunning'
    rw [hmachine] at hpeer
    have hmachine' : t.station.machine = .serving (s.damaged count) (.waiting goal) := by
      rw [h.station.machine, hmachine]
      rfl
    have hsense : o.sense client (.send batch) =
        { o with station := o.station.sense client batch }.settle := by
      refine if_pos ?_
      rw [hknown, List.isEmpty_eq_false_iff.mpr hsome]
      rfl
    rw [act_send_known (h.known.trans hknown) hsome, hsense]
    have hfinds : (t.station.enqueue batch).queue ≠ [] := by
      show t.station.queue ++ batch ≠ []
      rw [hqueue]
      exact hsome
    have hat : (t.station.enqueue batch).channel.peer = s.client := by
      show t.station.channel.peer = s.client
      rw [h.station.channel, hpeer]
      rfl
    have hwoken := (settle_comes Upload.settles.bounded
      { t with station := t.station.enqueue batch }).woken hmachine' hfinds hat
    refine @shadows_of_comes client { t with station := t.station.enqueue batch }
      { o with station := o.station.sense client batch } count _ hwoken h.link h.now h.faults h.known ?_
      h.station.channel ?_ rfl hrunning' h.watches.wake
    · show Upload.Trails count t.station.machine.wake (t.station.queue ++ batch) o.station.machine.wake
        (o.station.queue ++ heard (some client) batch)
      rw [hmachine', hmachine, hqueue, hqueue', ← hclient]
      exact .awake { s with retry := s.retry.reset } (.listening goal) nofun count batch
    · show o.station.channel.peer = o.station.machine.wake.client
      rw [hmachine]
      exact hpeer
  · have hact : t.act (.send batch) = (t, []) := by
      by_cases hknown : t.known = true
      · have hnil : batch = [] := Decidable.byContradiction fun hsome =>
          harrives ⟨h.known ▸ hknown, hsome⟩
        rw [hnil, act_send_nil]
      · exact act_send_unknown (Bool.eq_false_iff.mpr hknown) batch
    have hsense : o.sense client (.send batch) = (o, []) := by
      refine if_neg fun hboth => harrives ?_
      rw [Bool.and_eq_true, Bool.not_eq_true', List.isEmpty_eq_false_iff] at hboth
      exact hboth
    rw [hact, hsense]
    exact ⟨rfl, count, h⟩

omit h in
theorem pass_not_due {limit : Nat} (hdue : t.station.dueBy limit = none) (tries : Nat) :
    t.pass limit tries = (t, []) := by
  cases tries with
  | zero => rfl
  | succ tries =>
      unfold Trial.pass
      rw [hdue]

omit h in
theorem pass_due {limit time : Nat} (hdue : t.station.dueBy limit = some time) (tries : Nat) :
    (t.pass limit (tries + 1)).1 =
        ({ t with now := time, station := t.station.expire }.settle.1.pass limit tries).1 ∧
      (t.pass limit (tries + 1)).2 = { t with now := time, station := t.station.expire }.settle.2 ++
        ({ t with now := time, station := t.station.expire }.settle.1.pass limit tries).2 := by
  simp only [Trial.pass, hdue, and_self]

omit h in
/-- The timers of both run out at the same times. -/
theorem Shadows.pass (limit : Nat) (tries : Nat) : ∀ {count t o}, Shadows client count t o →
    (t.pass limit tries).2 = (o.pass limit tries).2 ∧
      ∃ count', Shadows client count' (t.pass limit tries).1 (o.pass limit tries).1 := by
  induction tries with
  | zero => exact fun h => ⟨rfl, _, h⟩
  | succ tries ih =>
      intro count t o h
      have hdue : t.station.dueBy limit = o.station.dueBy limit := by
        unfold Station.dueBy
        rw [h.station.deadline]
      cases hd : o.station.dueBy limit with
      | none =>
          rw [pass_not_due (hdue.trans hd), pass_not_due hd]
          exact ⟨rfl, count, h⟩
      | some time =>
          obtain ⟨hpass, hpasses⟩ := pass_due (hdue.trans hd) tries
          obtain ⟨hpass', hpasses'⟩ := pass_due hd tries
          rw [hpass, hpasses, hpass', hpasses']
          have hrunning' : o.station.result = none := by
            refine Decidable.byContradiction fun hended => ?_
            unfold Station.dueBy at hd
            rw [h.ended hended] at hd
            cases hd
          have hrunning : t.station.result = none := by
            rw [h.station.result, hrunning']
            rfl
          obtain ⟨s, goal, hmachine⟩ := h.waits hrunning'
          obtain ⟨hqueue, hqueue'⟩ := h.station.queue hrunning
          have hpeer := h.peer hrunning'
          rw [hmachine] at hpeer
          have hsim : Upload.Trails count (Machine.expire t.station.machine) t.station.queue
              (Machine.expire o.station.machine) o.station.queue := by
            rw [h.station.machine, hmachine, hqueue, hqueue']
            exact .awake s (.overdue goal) nofun count []
          have hat : o.station.channel.peer = (Machine.expire o.station.machine).client := by
            rw [hmachine]
            exact hpeer
          obtain ⟨hleft, count', hshadows⟩ := @shadows_of_comes client
            { t with now := time, station := t.station.expire }
            { o with now := time, station := o.station.expire } count _
            (settle_comes Upload.settles.bounded _) h.link rfl h.faults h.known hsim h.station.channel hat
            hrunning hrunning' h.watches.expire
          obtain ⟨hmore, hfinal⟩ := ih hshadows
          exact ⟨by rw [hleft, hmore], hfinal⟩

theorem Shadows.act (hrunning : t.station.result = none) (action : Action) :
    (t.act action).2 = (o.sense client action).2 ∧
      ∃ count', Shadows client count' (t.act action).1 (o.sense client action).1 := by
  cases action with
  | send batch => exact h.send hrunning batch
  | wait milliseconds =>
      have hexpiries : Machine.expiries t.station.machine = Machine.expiries o.station.machine := by
        obtain ⟨s, goal, hmachine⟩ := h.waits (h.running hrunning)
        rw [h.station.machine, hmachine]
        rfl
      obtain ⟨hleft, count', hpassed⟩ := h.pass (o.now + milliseconds) (Machine.expiries o.station.machine)
      show (t.pass (t.now + milliseconds) (Machine.expiries t.station.machine)).2 = _ ∧ _
      rw [h.now, hexpiries]
      refine ⟨hleft, count', ?_⟩
      show Shadows client count'
        { (t.pass (t.now + milliseconds) (Machine.expiries t.station.machine)).1 with
          now := t.now + milliseconds }
        { (o.pass (o.now + milliseconds) (Machine.expiries o.station.machine)).1 with
          now := o.now + milliseconds }
      rw [h.now, hexpiries]
      exact ⟨hpassed.link, hpassed.faults, rfl, hpassed.known, hpassed.station, hpassed.watches,
        hpassed.waits, hpassed.peer, hpassed.ended⟩

omit h in
theorem Shadows.play (script : List Action) : ∀ {count t o}, Shadows client count t o →
    (t.play script).2 = (o.perceive client script).2 ∧
      ∃ count', Shadows client count' (t.play script).1 (o.perceive client script).1 := by
  induction script with
  | nil => exact fun h => ⟨rfl, _, h⟩
  | cons action rest ih =>
      intro count t o h
      cases hended : t.station.ended with
      | true =>
          have hended' := h.station.ended.symm.trans hended
          simp only [Trial.play, perceive, hended, hended', if_true]
          exact ⟨trivial, count, h⟩
      | false =>
          have hended' := h.station.ended.symm.trans hended
          have hrunning := Option.isNone_iff_eq_none.mp (Option.isSome_eq_false_iff.mp hended)
          obtain ⟨hleft, count', hacted⟩ := h.act hrunning action
          obtain ⟨hmore, hfinal⟩ := ih hacted
          simp only [Trial.play, perceive, hended, hended', Bool.false_eq_true, if_false, hleft, hmore]
          exact ⟨trivial, hfinal⟩

/-- Noise that arrives alone ends the wait of the upload and begins a first wait in a row; nothing is sent,
and nothing else changes. -/
def BeginsAgain (client : Address) (t : Trial Upload) : Prop :=
  ∀ batch, batch ≠ [] → heard (some client) batch = [] →
    ∃ s goal, t.station.machine = .serving s (.waiting goal) ∧
      t.act (.send batch) =
        ({ t with station := { t.station with
            machine := .serving (s.damaged (damage (some client) batch)).rested (.waiting goal)
            deadline := some (t.now + s.shortTimeout) } }, [])

theorem Shadows.begins_again (hknown : t.known = true) (hrunning : t.station.result = none) :
    t.BeginsAgain client := by
  intro batch hsome hnoise
  obtain ⟨s₀, goal, hmachine₀⟩ := h.waits (h.running hrunning)
  have hpeer := h.peer (h.running hrunning)
  obtain ⟨hclient, hwaits⟩ := h.watches
  obtain ⟨hstuck, hpatient⟩ := hwaits s₀ goal hmachine₀
  rw [hmachine₀] at hclient hpeer
  obtain ⟨s, hs⟩ : ∃ s, s = s₀.damaged count := ⟨_, rfl⟩
  have hmachine : t.station.machine = .serving s (.waiting goal) := by
    rw [h.station.machine, hmachine₀, hs]
    rfl
  have hat : t.station.channel.peer = s.client := by
    rw [h.station.channel, hpeer, hs]
    rfl
  have hqueue := (h.station.queue hrunning).1
  rw [show some client = some s.client by rw [hs, ← hclient]; rfl] at hnoise ⊢
  refine ⟨s, goal, hmachine, ?_⟩
  have hagain := @Station.noise_comes t.link t.now t.faults { s with retry := s.retry.reset } goal
    (hs ▸ hstuck) rfl (hs ▸ hpatient) t.station.channel hat t.station.deadline batch hnoise
  have hqueue' : (t.station.enqueue batch).queue = batch := by
    show t.station.queue ++ batch = batch
    rw [hqueue, List.nil_append]
  have hwake : Machine.step (t.station.enqueue batch).machine (t.station.enqueue batch).queue =
      .next (.serving { s with retry := s.retry.reset } (.listening goal)) batch [] := by
    obtain ⟨x, rest, rfl⟩ := List.exists_cons_of_ne_nil hsome
    rw [hqueue']
    show Machine.step t.station.machine _ = _
    rw [hmachine]
    rfl
  have hsend : Channel.sendAll { (t.station.enqueue batch).channel with peer := s.client } t.link t.faults
      [] = (.ok (), t.station.channel, t.faults, []) := by
    show (Except.ok (), { t.station.channel with peer := s.client }, t.faults, []) = _
    rw [← hat]
  have hcomes := Station.Comes.goes _ t.faults _ batch [] t.station.channel t.faults [] _ _ [] hwake hsend
    hagain
  rw [act_send_known hknown hsome, settle_eq Upload.settles.bounded hcomes]
  refine Prod.ext ?_ rfl
  show Trial.mk t.link _ t.faults t.now (t.known || false) =
    Trial.mk t.link ⟨_, t.station.channel, t.station.queue, _, t.station.result⟩ t.faults t.now t.known
  rw [Bool.or_false, hqueue, hrunning]
  rfl

end Trial

/-- The records differ only in the damaged datagrams that have been counted. -/
structure Record.Agree (r r' : Record Upload) : Prop where
  departures : r.departures = r'.departures
  rest : ∃ (u : Upload) (result : Option (Except Stop Statistics)) (count count' : Nat),
    r.machine = u.damaged count ∧ r'.machine = u.damaged count' ∧
    r.result = result.map (Except.map (Statistics.damaged count)) ∧
    r'.result = result.map (Except.map (Statistics.damaged count'))

/-- A trial of an upload up to the end of a script. -/
def Trial.after (link : Link) (faults : FaultModel) (u : Upload) (script : List Action)
    (known : Bool := false) : Trial Upload :=
  ((Trial.begin link faults u known).settle.1.play script).1

section
variable (link : Link) (faults : FaultModel) (config : Config) (request : FileRequest) (client : Address)
  (source : Source) (known : Bool)

/-- An upload that has begun shadows itself. -/
theorem begin_shadows : ∃ count, Trial.Shadows client count
    (Trial.begin link faults (.start config request client source) known).settle.1
    (Trial.begin link faults (.start config request client source) known).settle.1 := by
  have hcomes := Trial.settle_comes Upload.settles.bounded
    (Trial.begin link faults (Upload.start config request client source) known)
  have hsim := @Upload.Trails.along 0 (.opening config request client source) [] (Or.inr rfl) nofun
  exact (Trial.shadows_of_comes hcomes rfl rfl rfl rfl hsim rfl rfl rfl rfl ⟨rfl, nofun⟩).2

/-- **Whatever arrives wakes an upload, and noise does nothing else.**  What is sent in each action, and how
the upload ends, is the same for all scripts in which something arrives at the same times and the same of it
counts; and noise that arrives alone begins the wait again. -/
theorem arrivals_wake :
    (∀ script script', List.Forall₂ (Action.Agree client) script script' →
      (record link faults (Upload.start config request client source) script known).Agree
        (record link faults (Upload.start config request client source) script' known)) ∧
    ∀ script, (Trial.after link faults (.start config request client source) script known).known = true →
      (Trial.after link faults (.start config request client source) script known).station.result = none →
      (Trial.after link faults (.start config request client source) script known).BeginsAgain client := by
  obtain ⟨count, hbegun⟩ := begin_shadows link faults config request client source known
  refine ⟨fun script script' hagree => ?_, fun script hknown hrunning => ?_⟩
  · obtain ⟨hleft, n, hplayed⟩ := Trial.Shadows.play script hbegun
    obtain ⟨hleft', n', hplayed'⟩ := Trial.Shadows.play script' hbegun
    rw [Trial.perceive_agree hagree] at hleft hplayed
    exact ⟨congrArg (_ :: ·) (hleft.trans hleft'.symm), _, _, n, n', hplayed.station.machine,
      hplayed'.station.machine, hplayed.station.result, hplayed'.station.result⟩
  · obtain ⟨-, n, hplayed⟩ := Trial.Shadows.play script hbegun
    exact hplayed.begins_again hknown hrunning

end

/-- An upload of a letter, with a client that is silent. -/
def letterUpload : Upload :=
  .start {} Encounter.letterRequest ⟨"client", 0⟩ (.contents (List.replicate 900 65))

/-- A single byte arrives before the first wait is over. -/
def lonelyNoise : List Action := [.wait 600, .send [⟨⟨"client", 0⟩, [0]⟩], .wait 600]

/-- Noise keeps an upload from sending again what it would have sent without it. -/
theorem noise_postpones :
    (record .up (.ofConfig {}) letterUpload lonelyNoise).departures ≠
      (record .up (.ofConfig {}) letterUpload
        (lonelyNoise.map (Action.heard ⟨"client", 0⟩))).departures := by
  decide +kernel

/-- A stranger's packet and a damaged one arrive instead. -/
def otherNoise : List Action :=
  [.wait 600,
    .send [⟨⟨"stranger", 0⟩, (Packet.control .ack 1).frame⟩, ⟨⟨"client", 0⟩, [1, 2, 3, 4, 5, 6, 7, 8]⟩],
    .wait 600]

/-- They do what the single byte does, and what comes after that does it again. -/
theorem other_noise_wakes :
    List.Forall₂ (Action.Agree ⟨"client", 0⟩) lonelyNoise otherNoise ∧
    (record .up (.ofConfig {}) letterUpload lonelyNoise).Agree
      (record .up (.ofConfig {}) letterUpload otherNoise) ∧
    (Trial.after .up (.ofConfig {}) letterUpload lonelyNoise).known = true ∧
    (Trial.after .up (.ofConfig {}) letterUpload lonelyNoise).station.result = none ∧
    (Trial.after .up (.ofConfig {}) letterUpload lonelyNoise).BeginsAgain ⟨"client", 0⟩ := by
  have hagree : List.Forall₂ (Action.Agree ⟨"client", 0⟩) lonelyNoise otherNoise := by
    refine .cons rfl (.cons ⟨?_, by simp⟩ (.cons rfl .nil))
    decide +kernel
  have hafter : (Trial.after .up (.ofConfig {}) letterUpload lonelyNoise).known = true ∧
      (Trial.after .up (.ofConfig {}) letterUpload lonelyNoise).station.result.isNone = true := by
    decide +kernel
  have hrunning := Option.isNone_iff_eq_none.mp hafter.2
  obtain ⟨hagrees, hwakes⟩ := arrivals_wake .up (.ofConfig {}) {} Encounter.letterRequest ⟨"client", 0⟩
    (.contents (List.replicate 900 65)) false
  rw [show Upload.start {} Encounter.letterRequest ⟨"client", 0⟩ (.contents (List.replicate 900 65)) =
    letterUpload from rfl] at hagrees hwakes
  exact ⟨hagree, hagrees _ _ hagree, hafter.1, hrunning, hwakes _ hafter.1 hrunning⟩

end Scenario

end SelectiveReject
