import SelectiveReject.Proofs.Faults
import SelectiveReject.Proofs.Hearing

/-!
# Two runs that differ in what does not count

A station that runs until it waits or has ended `Comes` to one state only.  When each of its steps is taken by
a second station as well, or sends nothing and is none for the second, then what the first comes to the second
comes to also, up to the damaged datagrams that the first has counted (`Echoes.comes`).

```
first     x, noise, y, noise     sends p      sends q      waits
second    x, y                   sends p      sends q      waits
```

A script is played by letting the station run after each batch of datagrams, so the two agree batch by batch
(`Echo.play`).
-/

namespace SelectiveReject.Scenario

namespace Station

variable {σ : Type} [Machine σ] {link : Link} {now : Nat} {s s₁ s₂ : Station σ}
  {faults faults₁ faults₂ : FaultModel} {left left₂ : List Departure}

/-- What a station comes to that runs until it waits or has ended. -/
inductive Comes (link : Link) (now : Nat) :
    Station σ → FaultModel → Station σ → FaultModel → List Departure → Prop
  | waits (s : Station σ) (faults : FaultModel) (hstep : Machine.step s.machine s.queue = .wait) :
      Comes link now s faults { s with deadline := some (now + Machine.patience s.machine) } faults []
  | stops (s : Station σ) (faults : FaultModel) (result : Except Stop Statistics)
      (hstep : Machine.step s.machine s.queue = .stop result) :
      Comes link now s faults (s.finish result) faults []
  | fails (s : Station σ) (faults : FaultModel) (m : σ) (queue : List Arrival) (sent : List Packet)
      (e : Stop) (channel : Channel) (faults' : FaultModel) (left : List Departure)
      (hstep : Machine.step s.machine s.queue = .next m queue sent)
      (hsend : Channel.sendAll { s.channel with peer := Machine.peer m } link faults sent =
        (.error e, channel, faults', left)) :
      Comes link now s faults (finish ⟨m, channel, queue, none, none⟩ (.error e)) faults' left
  | goes (s : Station σ) (faults : FaultModel) (m : σ) (queue : List Arrival) (sent : List Packet)
      (channel : Channel) (faults' : FaultModel) (left : List Departure) (s' : Station σ)
      (faults'' : FaultModel) (more : List Departure)
      (hstep : Machine.step s.machine s.queue = .next m queue sent)
      (hsend : Channel.sendAll { s.channel with peer := Machine.peer m } link faults sent =
        (.ok (), channel, faults', left))
      (hrest : Comes link now ⟨m, channel, queue, s.deadline, none⟩ faults' s' faults'' more) :
      Comes link now s faults s' faults'' (left ++ more)

/-- A station comes to one state only. -/
theorem Comes.unique (h : Comes link now s faults s₁ faults₁ left)
    (h₂ : Comes link now s faults s₂ faults₂ left₂) : s₁ = s₂ ∧ faults₁ = faults₂ ∧ left = left₂ := by
  induction h generalizing s₂ faults₂ left₂ with
  | waits s faults hstep =>
      cases h₂ with
      | waits => exact ⟨rfl, rfl, rfl⟩
      | stops _ _ _ hstep₂ | fails _ _ _ _ _ _ _ _ _ hstep₂ | goes _ _ _ _ _ _ _ _ _ _ _ hstep₂ =>
          cases hstep.symm.trans hstep₂
  | stops s faults result hstep =>
      cases h₂ with
      | stops _ _ _ hstep₂ =>
          cases hstep.symm.trans hstep₂
          exact ⟨rfl, rfl, rfl⟩
      | waits _ _ hstep₂ | fails _ _ _ _ _ _ _ _ _ hstep₂ | goes _ _ _ _ _ _ _ _ _ _ _ hstep₂ =>
          cases hstep.symm.trans hstep₂
  | fails s faults m queue sent e channel faults' left hstep hsend =>
      cases h₂ with
      | fails _ _ _ _ _ _ _ _ _ hstep₂ hsend₂ =>
          cases hstep.symm.trans hstep₂
          cases hsend.symm.trans hsend₂
          exact ⟨rfl, rfl, rfl⟩
      | goes _ _ _ _ _ _ _ _ _ _ _ hstep₂ hsend₂ =>
          cases hstep.symm.trans hstep₂
          cases hsend.symm.trans hsend₂
      | waits _ _ hstep₂ | stops _ _ _ hstep₂ => cases hstep.symm.trans hstep₂
  | goes s faults m queue sent channel faults' left s' faults'' more hstep hsend hrest ih =>
      cases h₂ with
      | goes _ _ _ _ _ _ _ _ _ _ _ hstep₂ hsend₂ hrest₂ =>
          cases hstep.symm.trans hstep₂
          cases hsend.symm.trans hsend₂
          obtain ⟨rfl, rfl, rfl⟩ := ih hrest₂
          exact ⟨rfl, rfl, rfl⟩
      | fails _ _ _ _ _ _ _ _ _ hstep₂ hsend₂ =>
          cases hstep.symm.trans hstep₂
          cases hsend.symm.trans hsend₂
      | waits _ _ hstep₂ | stops _ _ _ hstep₂ => cases hstep.symm.trans hstep₂

/-- A property of the machine that each step keeps. -/
theorem Comes.keeps {Inv : σ → Prop} (hnext : ∀ m queue m' queue' sent, Inv m →
      Machine.step m queue = .next m' queue' sent → Inv m')
    (h : Comes link now s faults s₁ faults₁ left) (hinv : Inv s.machine) : Inv s₁.machine := by
  induction h with
  | waits | stops => exact hinv
  | fails _ _ _ _ _ _ _ _ _ hstep => exact hnext _ _ _ _ _ hinv hstep
  | goes _ _ _ _ _ _ _ _ _ _ _ hstep _ _ ih => exact ih (hnext _ _ _ _ _ hinv hstep)

/-- A station that has come to a wait has nothing to do. -/
structure AtRest (now : Nat) (s : Station σ) : Prop where
  waits : Machine.step s.machine s.queue = .wait
  due : s.deadline = some (now + Machine.patience s.machine)
  peer : s.channel.peer = Machine.peer s.machine

theorem Comes.atRest (h : Comes link now s faults s₁ faults₁ left)
    (hpeer : s.channel.peer = Machine.peer s.machine) : s₁.result = none → s₁.AtRest now := by
  induction h with
  | waits s faults hstep => exact fun _ => ⟨hstep, rfl, hpeer⟩
  | stops | fails => exact fun hnone => absurd hnone (Option.some_ne_none _)
  | goes s faults m queue sent channel faults' left s' faults'' more hstep hsend hrest ih =>
      refine ih ?_
      have := @Channel.sendAll_peer _ { s.channel with peer := Machine.peer m } link faults _ sent
      rw [hsend] at this
      exact this

/-- Nothing is waited for any more when the machine has ended. -/
theorem Comes.ended (h : Comes link now s faults s₁ faults₁ left) :
    s.result = none → s₁.result ≠ none → s₁.deadline = none := by
  induction h with
  | waits => exact fun hnone hended => absurd hnone hended
  | stops | fails => exact fun _ _ => rfl
  | goes _ _ _ _ _ _ _ _ _ _ _ _ _ _ ih => exact fun _ => ih rfl

/-- A station at rest stays where it is. -/
theorem AtRest.comes (h : s.AtRest now) (faults : FaultModel) : Comes link now s faults s faults [] := by
  have hwaits := @Comes.waits _ _ link now s faults h.waits
  rw [← h.due] at hwaits
  exact hwaits

/-- A bound on the steps that a machine can take before it waits or has ended. -/
structure Bounded (load : σ → List Arrival → Nat) : Prop where
  pos : ∀ m queue, 0 < load m queue
  less : ∀ m queue m' queue' sent, Machine.step m queue = .next m' queue' sent →
    load m' queue' < load m queue
  effort : ∀ m queue, load m queue ≤ Machine.effort m + 4 * queue.length

variable {load : σ → List Arrival → Nat}

theorem Bounded.run_comes (h : Bounded load) (count : Nat) : ∀ (s : Station σ) (faults : FaultModel),
    load s.machine s.queue ≤ count →
    Comes link now s faults (s.run link now faults count).1 (s.run link now faults count).2.1
      (s.run link now faults count).2.2 := by
  induction count with
  | zero =>
      intro s faults hload
      have := h.pos s.machine s.queue
      omega
  | succ count ih =>
      intro s faults hload
      unfold run
      split
      · rename_i hstep
        exact .waits s faults hstep
      · rename_i hstep
        exact .stops s faults _ hstep
      · rename_i m queue sent hstep
        have hless := h.less _ _ _ _ _ hstep
        split
        · rename_i hsend
          exact .fails s faults m queue sent _ _ _ _ hstep hsend
        · rename_i channel faults' left hsend
          exact .goes s faults m queue sent channel faults' left _ _ _ hstep hsend
            (ih ⟨m, channel, queue, s.deadline, none⟩ faults' (by
              show load m queue ≤ count
              omega))

/-- The steps that a station is given are enough. -/
theorem Bounded.settle_comes (h : Bounded load) (s : Station σ) (faults : FaultModel) :
    Comes link now s faults (s.settle link now faults).1 (s.settle link now faults).2.1
      (s.settle link now faults).2.2 :=
  h.run_comes _ s faults (h.effort s.machine s.queue)

end Station

/-! ## One station follows another -/

section
variable {σ : Type} [Machine σ] [Hearing σ] {link : Link} {now count : Nat}

/-- How a machine that reads only what counts follows one that reads everything and has counted so many
damaged datagrams more. -/
structure Follows (Sim : Nat → σ → List Arrival → σ → List Arrival → Prop) : Prop where
  peer : ∀ {count m queue m' queue'}, Sim count m queue m' queue' → Machine.peer m = Machine.peer m'
  patience : ∀ (count : Nat) (m : σ), Machine.patience (Hearing.damaged count m) = Machine.patience m
  listens : ∀ (count : Nat) (m : σ), Hearing.listensTo (Hearing.damaged count m) = Hearing.listensTo m
  rests : ∀ (count : Nat) (m : σ), Machine.step m [] = .wait →
    Machine.step (Hearing.damaged count m) [] = .wait
  wait : ∀ {count m queue m' queue'}, Sim count m queue m' queue' → Machine.step m queue = .wait →
    queue = [] ∧ queue' = [] ∧ Machine.step m' [] = .wait ∧ m = Hearing.damaged count m'
  stop : ∀ {count m queue m' queue' result}, Sim count m queue m' queue' →
    Machine.step m queue = .stop result →
    ∃ result', Machine.step m' queue' = .stop result' ∧ result = result'.map (Statistics.damaged count) ∧
      m = Hearing.damaged count m'
  next : ∀ {count m queue m' queue' m₁ queue₁ sent}, Sim count m queue m' queue' →
    Machine.step m queue = .next m₁ queue₁ sent →
    ∃ read, queue = read ++ queue₁ ∧
      Hearing.listensTo m₁ = peerAfter (Hearing.listensTo m) read ∧
      ((sent = [] ∧ Sim (count + damage (Hearing.listensTo m) read) m₁ queue₁ m' queue') ∨
        ∃ m₁' queue₁', Machine.step m' queue' = .next m₁' queue₁' sent ∧
          m₁ = Hearing.damaged (count + damage (Hearing.listensTo m) read) m₁' ∧
          Sim (count + damage (Hearing.listensTo m) read) m₁ queue₁ m₁' queue₁')

namespace Station

/-- Two stations that differ only in the damaged datagrams that they have counted. -/
structure Echo (count : Nat) (s s' : Station σ) : Prop where
  machine : s.machine = Hearing.damaged count s'.machine
  channel : s.channel = s'.channel
  deadline : s.deadline = s'.deadline
  result : s.result = s'.result.map (Except.map (Statistics.damaged count))
  queue : s.result = none → s.queue = [] ∧ s'.queue = []

variable {Sim : Nat → σ → List Arrival → σ → List Arrival → Prop} {s s' s₁ : Station σ}
  {faults faults₁ : FaultModel} {left : List Departure}

omit [Machine σ] in
theorem Echo.finish (hmachine : s.machine = Hearing.damaged count s'.machine)
    (hchannel : s.channel = s'.channel) (result : Except Stop Statistics) :
    Echo count (s.finish (result.map (Statistics.damaged count))) (s'.finish result) where
  machine := hmachine
  channel := hchannel
  deadline := rfl
  result := by
    cases result with
    | error stop => rfl
    | ok t =>
        show some (Except.ok _) = some (Except.ok _)
        rw [hchannel]
        rfl
  queue hnone := absurd hnone (Option.some_ne_none _)

omit [Machine σ] in
theorem Echo.ended (h : Echo count s s') : s.ended = s'.ended := by
  unfold Station.ended
  rw [h.result, Option.isSome_map]

/-- What a station comes to that reads everything, a station that reads what counts comes to as well. -/
theorem Comes.echo (hf : Follows Sim) (h : Comes link now s faults s₁ faults₁ left) :
    ∀ {count s'}, Sim count s.machine s.queue s'.machine s'.queue → s.channel = s'.channel →
      s'.channel.peer = Machine.peer s'.machine → s.result = none → s'.result = none →
      ∃ s₁' read, Comes link now s' faults s₁' faults₁ left ∧ s.queue = read ++ s₁.queue ∧
        Hearing.listensTo s₁.machine = peerAfter (Hearing.listensTo s.machine) read ∧
        Echo (count + damage (Hearing.listensTo s.machine) read) s₁ s₁' := by
  induction h with
  | waits s faults hstep =>
      intro count s' hsim hchannel hpeer hrunning hrunning'
      obtain ⟨hqueue, hqueue', hstep', hmachine⟩ := hf.wait hsim hstep
      refine ⟨_, [], .waits s' faults (by rw [hqueue']; exact hstep'), rfl, rfl, hmachine, hchannel, ?_, ?_,
        fun _ => ⟨hqueue, hqueue'⟩⟩
      · show some _ = some _
        rw [hmachine, hf.patience]
      · show s.result = s'.result.map _
        rw [hrunning, hrunning']
        rfl
  | stops s faults result hstep =>
      intro count s' hsim hchannel hpeer _ _
      obtain ⟨result', hstep', rfl, hmachine⟩ := hf.stop hsim hstep
      exact ⟨_, [], .stops s' faults result' hstep', rfl, rfl, .finish hmachine hchannel result'⟩
  | fails s faults m queue sent e channel faults' left hstep hsend =>
      intro count s' hsim hchannel hpeer _ _
      obtain ⟨read, hqueue, hpeers, ⟨rfl, -⟩ | ⟨m', queue', hstep', hmachine, hsim'⟩⟩ := hf.next hsim hstep
      · cases hsend
      · rw [hchannel, hf.peer hsim'] at hsend
        exact ⟨_, read, .fails s' faults m' queue' sent e channel faults' left hstep' hsend, hqueue, hpeers,
          @Echo.finish _ _ _ ⟨m, channel, queue, none, none⟩ ⟨m', channel, queue', none, none⟩ hmachine rfl
            (.error e)⟩
  | goes s faults m queue sent channel faults' left s₁ faults₁ more hstep hsend hrest ih =>
      intro count s' hsim hchannel hpeer _ hrunning'
      have hkept := @Channel.sendAll_peer _ { s.channel with peer := Machine.peer m } link faults _ sent
      obtain ⟨read, hqueue, hpeers, ⟨rfl, hsim'⟩ | ⟨m', queue', hstep', -, hsim'⟩⟩ := hf.next hsim hstep
      · -- the first reads something that does not count
        cases hsend
        obtain ⟨s₁', read', hcomes, hqueue', hpeers', hecho⟩ := ih hsim' (by
          show { s.channel with peer := Machine.peer m } = s'.channel
          rw [hchannel, hf.peer hsim', ← hpeer]) hpeer rfl hrunning'
        refine ⟨s₁', read ++ read', hcomes, ?_, ?_, ?_⟩
        · rw [hqueue, List.append_assoc, ← hqueue']
        · rw [hpeers', peerAfter_append]
          exact congrArg (peerAfter · read') hpeers
        · rw [damage_append, ← hpeers, ← Nat.add_assoc]
          exact hecho
      · rw [hsend] at hkept
        obtain ⟨s₁', read', hcomes, hqueue', hpeers', hecho⟩ :=
          @ih _ ⟨m', channel, queue', s'.deadline, none⟩ hsim' rfl (hkept.trans (hf.peer hsim')) rfl rfl
        rw [hchannel, hf.peer hsim'] at hsend
        refine ⟨s₁', read ++ read', .goes s' faults m' queue' sent channel faults' left s₁' faults₁ more
          hstep' hsend hcomes, ?_, ?_, ?_⟩
        · rw [hqueue, List.append_assoc, ← hqueue']
        · rw [hpeers', peerAfter_append]
          exact congrArg (peerAfter · read') hpeers
        · rw [damage_append, ← hpeers, ← Nat.add_assoc]
          exact hecho

end Station

/-! ## Scripts without waits -/

namespace Trial

/-- The datagrams that reach the machine in a script. -/
def arrivals (t : Trial σ) : List Action → List Arrival
  | [] => []
  | action :: rest =>
      if t.station.ended then []
      else
        (match action with
          | .send datagrams => if t.known then datagrams else []
          | .wait _ => []) ++ (t.act action).1.arrivals rest

/-- Two trials that differ only in the damaged datagrams that have been counted; and the second, as long as it
has not ended, has come to a wait. -/
structure Echo (Calm : σ → Prop) (count : Nat) (t t' : Trial σ) : Prop where
  link : t.link = t'.link
  faults : t.faults = t'.faults
  now : t.now = t'.now
  known : t.known = t'.known
  station : Station.Echo count t.station t'.station
  rest : t'.station.result = none → t'.station.AtRest t'.now ∧ Calm t'.station.machine

/-- What a machine must keep so that nothing it does depends on what does not count. -/
structure Settles (load : σ → List Arrival → Nat) (Sim : Nat → σ → List Arrival → σ → List Arrival → Prop)
    (Calm : σ → Prop) : Prop where
  bounded : Station.Bounded load
  follows : Follows Sim
  calm : ∀ m queue m' queue' sent, Calm m → Machine.step m queue = .next m' queue' sent → Calm m'
  begins : ∀ (count : Nat) (m : σ) (queue : List Arrival), Calm m → Machine.step m [] = .wait →
    Sim count (Hearing.damaged count m) queue m (heard (Hearing.listensTo m) queue)

variable {load : σ → List Arrival → Nat} {Sim : Nat → σ → List Arrival → σ → List Arrival → Prop}
  {Calm : σ → Prop} {t t' : Trial σ}

omit [Hearing σ] in
theorem settle_comes (h : Station.Bounded load) (t : Trial σ) :
    t.station.Comes t.link t.now t.faults t.settle.1.station t.settle.1.faults t.settle.2 :=
  h.settle_comes t.station t.faults

omit [Hearing σ] in
theorem settle_eq (h : Station.Bounded load) {s₁ : Station σ} {faults₁ : FaultModel} {left : List Departure}
    (hcomes : t.station.Comes t.link t.now t.faults s₁ faults₁ left) :
    t.settle = (⟨t.link, s₁, faults₁, t.now, t.known || !left.isEmpty⟩, left) := by
  obtain ⟨rfl, rfl, rfl⟩ := hcomes.unique (settle_comes h t)
  rfl

/-- What a station comes to that reads everything, a trial comes to that reads what counts. -/
theorem settle_echo {count : Nat} (h : Station.Bounded load) (hf : Follows Sim) {s s₁ : Station σ}
    {faults₁ : FaultModel} {left : List Departure} {t : Trial σ}
    (hcomes : s.Comes t.link t.now t.faults s₁ faults₁ left)
    (hsim : Sim count s.machine s.queue t.station.machine t.station.queue)
    (hchannel : s.channel = t.station.channel)
    (hpeer : t.station.channel.peer = Machine.peer t.station.machine)
    (hrunning : s.result = none) (hrunning' : t.station.result = none) :
    ∃ read, left = t.settle.2 ∧ faults₁ = t.settle.1.faults ∧ s.queue = read ++ s₁.queue ∧
      Hearing.listensTo s₁.machine = peerAfter (Hearing.listensTo s.machine) read ∧
      Station.Echo (count + damage (Hearing.listensTo s.machine) read) s₁ t.settle.1.station := by
  obtain ⟨s₁', read, hcomes', hqueue, hpeers, hecho⟩ :=
    hcomes.echo hf hsim hchannel hpeer hrunning hrunning'
  obtain ⟨rfl, rfl, rfl⟩ := hcomes'.unique (settle_comes h t)
  exact ⟨read, rfl, rfl, hqueue, hpeers, hecho⟩

omit [Hearing σ] in
theorem act_send_nil (t : Trial σ) : t.act (.send []) = (t, []) := by
  show (if (t.known && !true) = true then _ else _) = _
  rw [Bool.not_true, Bool.and_false, if_neg Bool.false_ne_true]

omit [Hearing σ] in
theorem act_send_unknown (hknown : t.known = false) (datagrams : List Arrival) :
    t.act (.send datagrams) = (t, []) := by
  show (if (t.known && _) = true then _ else _) = _
  rw [hknown, Bool.false_and, if_neg Bool.false_ne_true]

omit [Hearing σ] in
theorem act_send_known (hknown : t.known = true) {datagrams : List Arrival} (hsome : datagrams ≠ []) :
    t.act (.send datagrams) = { t with station := t.station.enqueue datagrams }.settle := by
  show (if (t.known && !datagrams.isEmpty) = true then _ else _) = _
  rw [hknown, List.isEmpty_eq_false_iff.mpr hsome]
  rfl

omit [Hearing σ] in
/-- A batch of datagrams lets a station at rest come to what it comes to with them. -/
theorem act_send_comes (h : Station.Bounded load) (hknown : t.known = true)
    (hrest : t.station.AtRest t.now) (datagrams : List Arrival) :
    (t.station.enqueue datagrams).Comes t.link t.now t.faults (t.act (.send datagrams)).1.station
        (t.act (.send datagrams)).1.faults (t.act (.send datagrams)).2 ∧
      (t.act (.send datagrams)).1.link = t.link ∧ (t.act (.send datagrams)).1.now = t.now ∧
      (t.act (.send datagrams)).1.known = true := by
  by_cases hsome : datagrams = []
  · have hsame : t.station.enqueue [] = t.station := by
      unfold Station.enqueue
      rw [List.append_nil]
    rw [hsome, act_send_nil, hsame]
    exact ⟨hrest.comes t.faults, rfl, rfl, hknown⟩
  · rw [act_send_known hknown hsome]
    refine ⟨settle_comes h { t with station := t.station.enqueue datagrams }, rfl, rfl, ?_⟩
    show (t.known || _) = true
    rw [hknown, Bool.true_or]

theorem Echo.running (h : Echo Calm count t t') (hrunning : t.station.result = none) :
    t'.station.result = none := by
  have hresult := h.station.result
  rw [hrunning] at hresult
  exact Option.map_eq_none_iff.mp hresult.symm

/-- As long as it has not ended, the first station is at rest as well. -/
theorem Echo.atRest (hs : Settles load Sim Calm) (h : Echo Calm count t t')
    (hrunning : t.station.result = none) : t.station.AtRest t.now := by
  obtain ⟨hrest, hcalm⟩ := h.rest (h.running hrunning)
  obtain ⟨hqueue, hqueue'⟩ := h.station.queue hrunning
  have hwait := hrest.waits
  rw [hqueue'] at hwait
  constructor
  · rw [hqueue, h.station.machine]
    exact hs.follows.rests count _ hwait
  · rw [h.station.deadline, hrest.due, h.station.machine, hs.follows.patience, h.now]
  · have hsim := hs.begins count t'.station.machine [] hcalm hwait
    rw [h.station.channel, hrest.peer, h.station.machine, hs.follows.peer hsim]

/-- The second follows the first when it is given what counts of a batch. -/
theorem Echo.follows (hs : Settles load Sim Calm) (h : Echo Calm count t t')
    (hrunning : t.station.result = none) (batch : List Arrival) :
    Sim count (t.station.enqueue batch).machine (t.station.enqueue batch).queue
      (t'.station.enqueue (heard (Hearing.listensTo t.station.machine) batch)).machine
      (t'.station.enqueue (heard (Hearing.listensTo t.station.machine) batch)).queue := by
  obtain ⟨hrest, hcalm⟩ := h.rest (h.running hrunning)
  obtain ⟨hqueue, hqueue'⟩ := h.station.queue hrunning
  have hwait := hrest.waits
  rw [hqueue'] at hwait
  show Sim count t.station.machine (t.station.queue ++ batch) t'.station.machine
    (t'.station.queue ++ heard (Hearing.listensTo t.station.machine) batch)
  rw [hqueue, hqueue', List.nil_append, List.nil_append, h.station.machine, hs.follows.listens]
  exact hs.begins count _ batch hcalm hwait

/-- After a batch the trials differ as they did before, but for the damaged datagrams in it. -/
theorem Echo.act (hs : Settles load Sim Calm) (h : Echo Calm count t t') (hknown : t.known = true)
    (hrunning : t.station.result = none) (batch : List Arrival) :
    ∃ read, (t.act (.send batch)).2 =
        (t'.act (.send (heard (Hearing.listensTo t.station.machine) batch))).2 ∧
      batch = read ++ (t.act (.send batch)).1.station.queue ∧
      Hearing.listensTo (t.act (.send batch)).1.station.machine =
        peerAfter (Hearing.listensTo t.station.machine) read ∧
      Echo Calm (count + damage (Hearing.listensTo t.station.machine) read) (t.act (.send batch)).1
        (t'.act (.send (heard (Hearing.listensTo t.station.machine) batch))).1 := by
  have hrunning' := h.running hrunning
  obtain ⟨hrest, hcalm⟩ := h.rest hrunning'
  obtain ⟨hcomes, hlink, hnow, hknown₁⟩ := act_send_comes hs.bounded hknown (h.atRest hs hrunning) batch
  obtain ⟨hcomes', hlink', hnow', hknown₁'⟩ := act_send_comes hs.bounded (h.known ▸ hknown) hrest
    (heard (Hearing.listensTo t.station.machine) batch)
  obtain ⟨s₁', read, hcomes₁, hread, hpeers, hecho⟩ :=
    hcomes.echo hs.follows (h.follows hs hrunning batch) h.station.channel hrest.peer hrunning hrunning'
  rw [h.link, h.now, h.faults] at hcomes₁
  obtain ⟨hstation, hfaults, hleft⟩ := hcomes₁.unique hcomes'
  refine ⟨read, hleft, ?_, hpeers, ?_, hfaults, ?_, ?_, ?_, ?_⟩
  · rw [← hread]
    show batch = t.station.queue ++ batch
    rw [(h.station.queue hrunning).1, List.nil_append]
  · rw [hlink, hlink', h.link]
  · rw [hnow, hnow', h.now]
  · rw [hknown₁, hknown₁']
  · rw [← hstation]
    exact hecho
  · intro hnone
    rw [hnow']
    exact ⟨hcomes'.atRest hrest.peer hnone, hcomes'.keeps hs.calm hcalm⟩

omit [Hearing σ] in
/-- Nothing happens any more when the machine has ended. -/
theorem play_ended (hended : t.station.ended = true) (script : List Action) :
    t.play script = (t, []) ∧ t.arrivals script = [] := by
  cases script with
  | nil => exact ⟨rfl, rfl⟩
  | cons action rest => exact ⟨if_pos hended, if_pos hended⟩

omit [Hearing σ] in
/-- Peers that do not know the machine's address cannot send it anything. -/
theorem play_unknown (hknown : t.known = false) (hrunning : t.station.ended = false)
    (batches : List (List Arrival)) :
    t.play (batches.map .send) = (t, List.replicate batches.length []) ∧
      t.arrivals (batches.map .send) = [] := by
  induction batches with
  | nil => exact ⟨rfl, rfl⟩
  | cons batch rest ih =>
      simp only [List.map_cons, play, arrivals, hrunning, act_send_unknown hknown, hknown,
        Bool.false_eq_true, if_false, List.nil_append, ih.1, ih.2, List.length_cons,
        List.replicate_succ, and_self]

omit [Hearing σ] in
theorem play_send (hrunning : t.station.ended = false) (batch : List Arrival) (script : List Action) :
    (t.play (.send batch :: script)).1 = ((t.act (.send batch)).1.play script).1 ∧
      (t.play (.send batch :: script)).2 =
        (t.act (.send batch)).2 :: ((t.act (.send batch)).1.play script).2 := by
  simp only [play, hrunning, Bool.false_eq_true, if_false, and_self]

omit [Hearing σ] in
theorem arrivals_send (hknown : t.known = true) (hrunning : t.station.ended = false)
    (batch : List Arrival) (script : List Action) :
    t.arrivals (.send batch :: script) = batch ++ (t.act (.send batch)).1.arrivals script := by
  simp only [arrivals, hrunning, hknown, Bool.false_eq_true, if_false, if_true]

theorem Echo.play_ended (h : Echo Calm count t t') (hended : t.station.ended = true)
    (script script' : List Action) :
    t.play script = (t, []) ∧ t.arrivals script = [] ∧ t'.play script' = (t', []) := by
  obtain ⟨hplay, harrivals⟩ := Trial.play_ended hended script
  have hended' : t'.station.ended = true := h.station.ended ▸ hended
  exact ⟨hplay, harrivals, (Trial.play_ended hended' script').1⟩

/-- Batch by batch the two trials send the same. -/
theorem Echo.play (hs : Settles load Sim Calm) (batches : List (List Arrival)) :
    ∀ {count t t'}, Echo Calm count t t' →
      ∃ read, (t.play (batches.map .send)).2 =
          (t'.play ((heardAll (Hearing.listensTo t.station.machine) batches).map .send)).2 ∧
        t.station.queue ++ t.arrivals (batches.map .send) =
          read ++ (t.play (batches.map .send)).1.station.queue ∧
        Station.Echo (count + damage (Hearing.listensTo t.station.machine) read)
          (t.play (batches.map .send)).1.station
          (t'.play ((heardAll (Hearing.listensTo t.station.machine) batches).map .send)).1.station := by
  induction batches with
  | nil =>
      intro count t t' h
      exact ⟨[], rfl, List.append_nil _, h.station⟩
  | cons batch rest ih =>
      intro count t t' h
      have hsame := h.station.ended
      cases hended : t.station.ended with
      | true =>
          obtain ⟨hplay, harrivals, hplay'⟩ := h.play_ended hended ((batch :: rest).map .send)
            ((heardAll (Hearing.listensTo t.station.machine) (batch :: rest)).map .send)
          rw [hplay, hplay', harrivals]
          exact ⟨[], rfl, List.append_nil _, h.station⟩
      | false =>
          cases hknown : t.known with
          | false =>
              obtain ⟨hplay, harrivals⟩ := play_unknown hknown hended (batch :: rest)
              obtain ⟨hplay', -⟩ := @play_unknown _ _ t' (h.known ▸ hknown) (hsame ▸ hended)
                (heardAll (Hearing.listensTo t.station.machine) (batch :: rest))
              rw [hplay, hplay', harrivals, length_heardAll]
              exact ⟨[], rfl, List.append_nil _, h.station⟩
          | true =>
              have hrunning := Option.isNone_iff_eq_none.mp (Option.isSome_eq_false_iff.mp hended)
              obtain ⟨read, hleft, hbatch, hpeers, hecho⟩ := h.act hs hknown hrunning batch
              have hqueue := (h.station.queue hrunning).1
              obtain ⟨hplay, hplays⟩ := play_send hended batch (rest.map .send)
              obtain ⟨hplay', hplays'⟩ := @play_send _ _ t' (hsame ▸ hended)
                (heard (Hearing.listensTo t.station.machine) batch)
                ((heardAll (peerAfter (Hearing.listensTo t.station.machine) batch) rest).map .send)
              rw [List.map_cons, heardAll, List.map_cons, hplay, hplays, hplay', hplays',
                arrivals_send hknown hended, hqueue, List.nil_append, hleft]
              cases hended₁ : (t.act (.send batch)).1.station.ended with
              | true =>
                  -- what is still in the queue is read by nobody
                  obtain ⟨hrest, harrivals, hrest'⟩ := hecho.play_ended hended₁ (rest.map .send)
                    ((heardAll (peerAfter (Hearing.listensTo t.station.machine) batch) rest).map .send)
                  rw [hrest, hrest', harrivals, List.append_nil]
                  exact ⟨read, rfl, hbatch, hecho.station⟩
              | false =>
                  have hrunning₁ := Option.isNone_iff_eq_none.mp (Option.isSome_eq_false_iff.mp hended₁)
                  have hqueue₁ := (hecho.station.queue hrunning₁).1
                  rw [hqueue₁, List.append_nil] at hbatch
                  subst hbatch
                  obtain ⟨read', hlefts, hreads, hfinal⟩ := ih hecho
                  rw [hpeers] at hlefts hfinal
                  rw [hqueue₁, List.nil_append] at hreads
                  refine ⟨batch ++ read', ?_, ?_, ?_⟩
                  · rw [hlefts]
                  · rw [hreads, List.append_assoc]
                  · rw [damage_append, ← Nat.add_assoc]
                    exact hfinal

end Trial

/-- A machine that has not moved yet, at an address that may be known. -/
def Trial.begin (link : Link) (faults : FaultModel) (machine : σ) (known : Bool) : Trial σ :=
  ⟨link, .start machine, faults, 0, known⟩

/-- The datagrams that a machine takes from its queue in a script. -/
def readIn (link : Link) (faults : FaultModel) (machine : σ) (script : List Action) (known : Bool) :
    List Arrival :=
  let t := (Trial.begin link faults machine known).settle.1
  (t.arrivals script).take ((t.arrivals script).length - (t.play script).1.station.queue.length)

/-- How many damaged datagrams a machine counts in a script. -/
def damageIn (link : Link) (faults : FaultModel) (machine : σ) (script : List Action) (known : Bool) :
    Nat :=
  damage (Hearing.listensTo machine) (readIn link faults machine script known)

/-- What does not count leaves no trace but in the count of damaged datagrams, when it comes in batches. -/
structure Undisturbed (link : Link) (faults : FaultModel) (machine : σ) (batches : List (List Arrival))
    (known : Bool) : Prop where
  departures : (record link faults machine (batches.map .send) known).departures =
    (record link faults machine ((heardAll (Hearing.listensTo machine) batches).map .send) known).departures
  state : (record link faults machine (batches.map .send) known).machine =
    Hearing.damaged (damageIn link faults machine (batches.map .send) known)
      (record link faults machine ((heardAll (Hearing.listensTo machine) batches).map .send)
        known).machine
  result : (record link faults machine (batches.map .send) known).result =
    (record link faults machine ((heardAll (Hearing.listensTo machine) batches).map .send)
      known).result.map (Except.map (Statistics.damaged
        (damageIn link faults machine (batches.map .send) known)))

theorem Trial.Settles.undisturbed {load : σ → List Arrival → Nat}
    {Sim : Nat → σ → List Arrival → σ → List Arrival → Prop} {Calm : σ → Prop}
    (hs : Trial.Settles load Sim Calm) {machine : σ} (hcalm : Calm machine)
    (hsim : Sim 0 machine [] machine []) (link : Link) (faults : FaultModel)
    (batches : List (List Arrival)) (known : Bool) : Undisturbed link faults machine batches known := by
  have hcomes := Trial.settle_comes hs.bounded (Trial.begin link faults machine known)
  obtain ⟨read, -, -, hread, hpeers, hecho⟩ :=
    Trial.settle_echo hs.bounded hs.follows hcomes hsim rfl rfl rfl rfl
  -- nothing has arrived before the machine waits for the first time
  obtain ⟨rfl, hqueue⟩ := List.append_eq_nil_iff.mp hread.symm
  have hstart : Trial.Echo Calm 0 (Trial.begin link faults machine known).settle.1
      (Trial.begin link faults machine known).settle.1 :=
    ⟨rfl, rfl, rfl, rfl, hecho, fun hnone => ⟨hcomes.atRest rfl hnone, hcomes.keeps hs.calm hcalm⟩⟩
  obtain ⟨read, hlefts, hreads, hfinal⟩ := hstart.play hs batches
  rw [hqueue, List.nil_append] at hreads
  rw [hpeers, Nat.zero_add] at hfinal
  rw [hpeers] at hlefts
  have hcount : damageIn link faults machine (batches.map .send) known =
      damage (Hearing.listensTo machine) read := by
    unfold damageIn readIn
    dsimp only
    rw [hreads, List.take_left' (by simp)]
  refine ⟨congrArg (_ :: ·) hlefts, ?_, ?_⟩
  · rw [hcount]
    exact hfinal.machine
  · rw [hcount]
    exact hfinal.result

end

end SelectiveReject.Scenario
