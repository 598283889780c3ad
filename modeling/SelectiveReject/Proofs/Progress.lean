import SelectiveReject.Proofs.Talk

/-!
# A client and a transfer come nearer to their end

From some moment on nothing is lost or damaged any more, and a wait of the transfer is over only when nothing
else can happen (`Calm`).  Whatever has happened to their datagrams before, each step then brings a client that
takes data and a transfer nearer to a good end, in the order of `distance`, unless the transfer gives the client
up (`Linked.calm_step`).

The transfer does give the client up when its tries are used up, and what it reads between a wait that is over
and the next one leaves its tries as they are.  When nothing arrives there (`Prompt`), it always has a try left.
-/

namespace SelectiveReject.Scenario

namespace Network

/-- What may happen while every datagram arrives: client and transfers take steps, datagrams arrive where they
`may`, and a wait of a transfer is over when nothing else can happen.  Requests that still wait at the server are
left alone. -/
def Tolerates (n : Network) (may : Network → Nat → Prop) : Event → Prop
  | .client | .transfer _ => True
  | .deliver index => may n index
  | .transferTimer _ => n.Quiet
  | .request | .clientTimer | .lose _ | .duplicate _ | .damage _ _ => False

/-- What happens while every datagram arrives. -/
def Calm (a : Addresses) (may : Network → Nat → Prop) (n next : Network) : Prop :=
  ∃ event, n.Tolerates may event ∧ n.act a event = some next

/-- The datagram overtakes none, and it does not reach a transfer between a wait that is over and the next. -/
def Prompt (n : Network) (index : Nat) : Prop :=
  n.InOrder index ∧ ∀ d, n.wire[index]? = some d → ∀ t ∈ n.site.transfers,
    t.station.machine.Late → d.departure.target ≠ t.address

/-- The client and its only transfer have ended well, and the client has the file. -/
structure Arrived (file : Bytes) (n : Network) : Prop where
  client : ∃ r, n.client.result = some (.ok r)
  transfer : ∃ t r, n.site.transfers = [t] ∧ t.station.result = some (.ok r)
  file : n.client.machine.file = some file

/-- The only transfer has given the client up: none of its tries was left. -/
def GaveUp (n : Network) : Prop :=
  ∃ t s goal, n.site.transfers = [t] ∧ t.station.machine = .serving s (.listening goal) ∧
    s.retry.count = s.retry.maxTries ∧ t.station.result = some (.error s.retry.refusal)

/-- The client and one of the transfers, with what is pending for them. -/
def talk (a : Addresses) (n : Network) (t : Transfer) (s : Serving) (activity : Activity) : Talk where
  client := a.client
  transfer := t.address
  download := n.client.machine
  serving := s
  activity := activity
  toClient := pending n.client.queue n.wire a.client
  toTransfer := pending t.station.queue n.wire t.address

/-- A network on which nothing is lost, with a single transfer, and both machines alive or at their end. -/
structure Linked (a : Addresses) (j : Job) (n : Network) (t : Transfer) (s : Serving)
    (activity : Activity) : Prop where
  sound : n.Sound a j
  up : n.site.link = .up
  idle : n.faults.Idle
  idleSite : n.site.faults.Idle
  transfers : n.site.transfers = [t]
  machine : t.station.machine = .serving s activity
  lively : (talk a n t s activity).Lively
  clientResult : n.client.result = none ∨
    n.client.machine.Finished ∧ ∃ r, n.client.result = some (.ok r)
  result : t.station.result = none ∨ activity = .done ∧ ∃ r, t.station.result = some (.ok r)

/-- The weight of what is on the wire, where everything weighs one more than in a queue. -/
def wireLoad (wire : List Delivery) : Nat := total (fun d => d.arrival.weight + 1) wire

/-- The weight of everything that is pending or on the wire. -/
def burden (n : Network) (t : Transfer) : Nat :=
  load n.client.queue + load t.station.queue + wireLoad n.wire

/-- How urgent the next steps of the two are. -/
def urgency (n : Network) (t : Transfer) (s : Serving) (activity : Activity) : Nat :=
  (if t.station.ended then 0 else Talk.urge s activity t.station.queue) +
    (if n.client.ended then 0 else 1)

/-- How far the two are from their end. -/
noncomputable def distance (a : Addresses) (j : Job) (n : Network) (t : Transfer) (s : Serving)
    (activity : Activity) : Nat × Nat × Nat × Nat :=
  (3 * (talk a n t s activity).toGo j + (talk a n t s activity).lack, Talk.unsent j s, burden n t,
    urgency n t s activity)

/-- There is less to go, or less is lacking; or no more is lacking, and one of the other numbers goes down. -/
theorem nearer_of {a : Addresses} {j : Job} {n n' : Network} {t t' : Transfer} {s s' : Serving}
    {activity activity' : Activity}
    (h : (talk a n' t' s' activity').toGo j < (talk a n t s activity).toGo j ∨
      (talk a n' t' s' activity').toGo j = (talk a n t s activity).toGo j ∧
        ((talk a n' t' s' activity').lack < (talk a n t s activity).lack ∨
          (talk a n' t' s' activity').lack ≤ (talk a n t s activity).lack ∧
            (Talk.unsent j s' < Talk.unsent j s ∨ Talk.unsent j s' = Talk.unsent j s ∧
              (burden n' t' < burden n t ∨ burden n' t' = burden n t ∧
                urgency n' t' s' activity' < urgency n t s activity)))) :
    Nearer (distance a j n' t' s' activity') (distance a j n t s activity) := by
  apply nearer_of_numbers
  have htwo : (talk a n' t' s' activity').lack ≤ 2 := Talk.lack_le_two
  rcases h with h | ⟨hsame, h | ⟨hle, h⟩⟩
  · exact Or.inl (by omega)
  · exact Or.inl (by omega)
  · rcases Nat.lt_or_eq_of_le hle with hlt | heq
    · exact Or.inl (by omega)
    · exact Or.inr ⟨by omega, h⟩

/-- The two are linked and nearer to their end than before; and if they go on as told, the transfer is still
assured of a try. -/
structure Nearing (a : Addresses) (j : Job) (prompt : Prop) (n : Network) (t : Transfer) (s : Serving)
    (activity : Activity) (n' : Network) (t' : Transfer) (s' : Serving) (activity' : Activity) :
    Prop where
  linked : Linked a j n' t' s' activity'
  nearer : Nearer (distance a j n' t' s' activity') (distance a j n t s activity)
  assured : prompt → (talk a n t s activity).Assured t.station.queue →
    (talk a n' t' s' activity').Assured t'.station.queue

variable {a : Addresses} {j : Job} {n n' : Network} {t : Transfer} {s : Serving}
  {activity : Activity} {prompt : Prop}

theorem Linked.address (h : Linked a j n t s activity) :
    t.address ≠ a.client ∧ t.address ≠ a.server :=
  h.sound.address_ne (by simp [h.transfers])

/-- What a linked network knows of the talk. -/
theorem Linked.talk_sound (h : Linked a j n t s activity) :
    (talk a n t s activity).Sound j (n.view a) := by
  have htransfer := h.sound.transfers t (by simp [h.transfers])
  have hupload := htransfer.upload
  rw [h.machine] at hupload
  have hpending : ∀ {queue : List Arrival} {target : Address},
      (∀ x ∈ queue, x.Honest j (n.view a)) →
      ∀ x ∈ pending queue n.wire target, x.Honest j (n.view a) := by
    intro queue target hqueue x hx
    rcases List.mem_append.mp hx with hx | hx
    · exact hqueue x hx
    · obtain ⟨d, hd, rfl⟩ := List.mem_map.mp hx
      exact h.sound.wire d ((List.mem_filter.mp hd).1)
  refine ⟨h.sound.client, hupload, rfl, ?_, ?_, hpending h.sound.queue, hpending htransfer.queue⟩
  · show horizon n.site.transfers = s.window.current
    rw [h.transfers]
    exact horizon_single h.machine (Serving.Keeps.fits hupload)
  · rintro ⟨t', ht', hended⟩
    rw [h.transfers, List.mem_singleton] at ht'
    subst ht'
    rw [h.machine] at hended
    exact hended

theorem wireLoad_append (wire more : List Delivery) :
    wireLoad (wire ++ more) = wireLoad wire + wireLoad more := total_append _ _ _

/-- The weight of packets on the wire. -/
theorem wireLoad_mail {source target : Address} {sent : List Packet}
    (hshort : ∀ p ∈ sent, p.payload.length ≤ Packet.maxPayload) :
    wireLoad (sent.map (mail source target)) = cost sent := by
  induction sent with
  | nil => rfl
  | cons p rest ih =>
      have hpacket : (mail source target p).arrival.packet = .ok p :=
        Arrival.packet_frame (hshort p List.mem_cons_self)
      have hrest := ih fun q hq => hshort q (List.mem_cons_of_mem _ hq)
      show (mail source target p).arrival.weight + 1 + wireLoad (rest.map (mail source target)) =
        p.flag.weight + 1 + cost rest
      rw [Arrival.weight_eq hpacket, hrest]

/-! ## The client -/

/-- A step of the client brings the two nearer to their end. -/
theorem Linked.client_step (h : Linked a j n t s activity) (hstep : n.stepClient a = some n') :
    Nearing a j prompt n t s activity n' t s activity := by
  have hsound' := h.sound.stepClient hstep
  have hgoes := h.sound.client_goes
  have halive : n.client.machine.Alive := h.lively.alive
  obtain ⟨hended, hcase⟩ := stepClient_idle h.sound h.up h.idle hstep
  rcases hcase with ⟨result, hstop, rfl⟩ | ⟨d, queue, sent, hnext, rfl⟩
  · -- the client ends, and it ends well
    rw [hstop] at hgoes
    obtain ⟨s', hs', rfl⟩ := hgoes.ends halive
    refine ⟨⟨hsound', h.up, h.idle, h.idleSite, h.transfers, h.machine, h.lively,
      Or.inr ⟨⟨s', hs'⟩, _, rfl⟩, h.result⟩,
      nearer_of (Or.inr ⟨rfl, Or.inr ⟨Nat.le_refl _, Or.inr ⟨rfl, Or.inr ⟨rfl, ?_⟩⟩⟩⟩),
      fun _ => id⟩
    show _ + 0 < _ + (if n.client.ended then 0 else 1)
    rw [hended]
    exact Nat.lt_succ_self _
  · -- the client reads, and its peer is the transfer
    rw [hnext] at hgoes
    obtain ⟨s', hs'⟩ := hgoes.receives halive
    have hpeer : d.peer = t.address := (hgoes.peer halive).trans h.lively.peer
    have hmoved := Talk.client_moved h.talk_sound h.lively rfl hs' hgoes
    obtain ⟨haway, -⟩ := h.address
    have hsum := @wireLoad_mail a.client t.address sent (h.sound.client_short hnext)
    rw [hpeer] at hsound' ⊢
    generalize hn' : mailed { n with client := n.client.after d queue } a.client t.address sent =
      n' at hsound' ⊢
    have htalk : talk a n' t s activity = (talk a n t s activity).heard d
        (queue ++ (n.wire.filter fun d => d.departure.target = a.client).map Delivery.arrival)
        sent := by
      subst hn'
      unfold talk Talk.heard mailed
      simp only [pending_mail, pending_mail_of_ne haway]
      rfl
    rw [← htalk] at hmoved
    have hburden : burden n' t + load n.client.queue =
        burden n t + load queue + cost sent := by
      subst hn'
      unfold burden mailed Station.after
      simp only [wireLoad_append, hsum]
      omega
    have hlinked : Linked a j n' t s activity := by
      subst hn'
      exact ⟨hsound', h.up, h.idle, h.idleSite, h.transfers, h.machine, hmoved.lively, Or.inl rfl,
        h.result⟩
    refine ⟨hlinked, nearer_of ?_, fun _ hassured =>
      hassured.keep rfl rfl hmoved.hopeful fun _ => rfl⟩
    rcases hmoved.less with hless | ⟨hsame, hlack, hload⟩
    · exact Or.inl hless
    · exact Or.inr ⟨hsame, Or.inr ⟨hlack, Or.inr ⟨rfl, Or.inl (by omega)⟩⟩⟩

/-! ## The transfer -/

/-- What the transfer does next is one of the steps of an upload. -/
theorem Linked.transfer_goes (h : Linked a j n t s activity) :
    s.Goes j activity t.station.queue (Machine.step t.station.machine t.station.queue) := by
  have hkeeps := h.talk_sound.serving
  rw [h.machine]
  exact Serving.step_spec hkeeps.fits hkeeps.doing t.station.queue

/-- A transfer ends when it is done, and well, or it gives the client up. -/
theorem Linked.transfer_stop (h : Linked a j n t s activity) {queue : List Arrival}
    {result : Except Stop Statistics} (hg : s.Goes j activity queue (.stop result)) :
    (activity = .done ∧ ∃ r, result = .ok r) ∨
      ∃ goal, activity = .listening goal ∧ queue = [] ∧ ¬ s.retry.Patient ∧
        s.retry.count = s.retry.maxTries ∧ result = .error s.retry.refusal := by
  cases hg with
  | finish => exact Or.inl ⟨rfl, _, rfl⟩
  | giveUp goal hpatient =>
      refine Or.inr ⟨goal, rfl, rfl, hpatient, ?_, rfl⟩
      have htries : s.retry.count ≤ s.retry.maxTries ∧ s.retry.maxTries < limit32 := h.lively.tries
      unfold Retry.Patient at hpatient
      omega

/-- A step of the transfer in which it does not end. -/
theorem Linked.transfer_next (h : Linked a j n t s activity) (hended : t.station.ended = false)
    {s' : Serving} {activity' : Activity} {queue : List Arrival} {sent : List Packet}
    (hg : s.Goes j activity t.station.queue (.next (.serving s' activity') queue sent))
    (hsound' : Sound a j (mailed (n.moved t (t.station.after (.serving s' activity') queue))
      t.address a.client sent)) :
    ∃ t', Nearing a j prompt n t s activity
      (mailed (n.moved t (t.station.after (.serving s' activity') queue)) t.address a.client sent)
      t' s' activity' := by
  have hmoved := Talk.transfer_moved h.talk_sound h.lively rfl hg
  have hassured := Talk.assured_told h.talk_sound h.lively rfl hg
  obtain ⟨haway, -⟩ := h.address
  have hsum := @wireLoad_mail t.address a.client sent hg.short
  generalize ht' : ({ t with station := t.station.after (.serving s' activity') queue } :
    Transfer) = t'
  generalize hn' : mailed (n.moved t (t.station.after (.serving s' activity') queue))
    t.address a.client sent = n' at hsound' ⊢
  have htalk : talk a n' t' s' activity' = (talk a n t s activity).told s' activity'
      (queue ++ (n.wire.filter fun d => d.departure.target = t.address).map Delivery.arrival)
      sent := by
    subst hn' ht'
    unfold talk Talk.told mailed moved
    simp only [pending_mail, pending_mail_of_ne (Ne.symm haway)]
    rfl
  rw [← htalk] at hmoved hassured
  have hqueue : t'.station.queue = queue := by
    subst ht'
    rfl
  have hburden : burden n' t' + load t.station.queue =
      burden n t + load queue + cost sent := by
    subst hn' ht'
    unfold burden mailed moved Station.after
    simp only [wireLoad_append, hsum]
    omega
  have hlinked : Linked a j n' t' s' activity' := by
    subst hn' ht'
    exact ⟨hsound', h.up, h.idle, h.idleSite, rfl, rfl, hmoved.lively, h.clientResult,
      Or.inl rfl⟩
  have hurgency : Talk.urge s' activity' queue < Talk.urge s activity t.station.queue →
      urgency n' t' s' activity' < urgency n t s activity := by
    intro hlt
    subst hn' ht'
    unfold urgency
    rw [hended]
    show Talk.urge s' activity' queue + _ < Talk.urge s activity t.station.queue + _
    exact Nat.add_lt_add_right hlt _
  refine ⟨t', hlinked, nearer_of ?_, fun _ h => hqueue ▸ hassured h⟩
  rcases hmoved.less with hless | ⟨hsame, hlack | ⟨hlack, hless⟩⟩
  · exact Or.inl hless
  · exact Or.inr ⟨hsame, Or.inl hlack⟩
  · refine Or.inr ⟨hsame, Or.inr ⟨hlack, ?_⟩⟩
    rcases hless with hunsent | ⟨hunsent, hload | ⟨hload, hurge⟩⟩
    · exact Or.inl hunsent
    · exact Or.inr ⟨hunsent, Or.inl (by omega)⟩
    · exact Or.inr ⟨hunsent, Or.inr ⟨by omega, hurgency hurge⟩⟩

/-- A step of the transfer brings the two nearer to their end, unless it gives the client up. -/
theorem Linked.transfer_step (h : Linked a j n t s activity) {index : Nat}
    (hstep : n.stepTransfer index = some n') :
    (n'.GaveUp ∧ ¬ (talk a n t s activity).Assured t.station.queue) ∨
      ∃ t' s' activity', Nearing a j prompt n t s activity n' t' s' activity' := by
  have hsound' := h.sound.stepTransfer hstep
  have hgoes := h.transfer_goes
  obtain ⟨hended, hcase⟩ := stepTransfer_idle h.sound h.transfers h.up h.idleSite hstep
  rcases hcase with ⟨result, hstop, rfl⟩ | ⟨u, queue, sent, hnext, rfl⟩
  · rw [hstop] at hgoes
    rcases h.transfer_stop hgoes with
      ⟨rfl, r, rfl⟩ | ⟨goal, rfl, hqueue, hpatient, hcount, rfl⟩
    · right
      refine ⟨{ t with station := t.station.finish (.ok r) }, s, .done,
        ⟨hsound', h.up, h.idle, h.idleSite, rfl, h.machine, h.lively, h.clientResult,
          Or.inr ⟨rfl, _, rfl⟩⟩,
        nearer_of (Or.inr ⟨rfl, Or.inr ⟨Nat.le_refl _, Or.inr ⟨rfl, Or.inr ⟨rfl, ?_⟩⟩⟩⟩),
        fun _ => id⟩
      show 0 + _ < (if t.station.ended then 0 else 1) + _
      rw [hended]
      exact Nat.add_lt_add_right Nat.zero_lt_one _
    · refine Or.inl ⟨⟨_, s, goal, rfl, h.machine, hcount, rfl⟩, fun hassured => hpatient ?_⟩
      rw [hqueue] at hassured
      exact hassured.patient h.lively rfl
  · rw [hnext] at hgoes
    obtain ⟨s', activity', rfl⟩ : ∃ s' activity', u = .serving s' activity' := by
      generalize t.station.queue = queue at hgoes
      cases hgoes <;> exact ⟨_, _, rfl⟩
    have hkeeps := h.talk_sound.serving
    have hgrows := (hgoes.fits hkeeps.fits hkeeps.doing).2.2
    have hclient : (Upload.serving s' activity').client = a.client :=
      hgrows.client.trans hkeeps.client
    rw [hclient] at hsound' ⊢
    obtain ⟨t', hnearing⟩ := h.transfer_next hended hgoes hsound'
    exact Or.inr ⟨t', s', activity', hnearing⟩

/-! ## The network -/

/-- Client and transfer are as before, and so is what is pending for them, but it is lighter. -/
structure Lighter (a : Addresses) (n n' : Network) (t t' : Transfer) : Prop where
  link : n'.site.link = n.site.link
  faults : n'.faults = n.faults
  siteFaults : n'.site.faults = n.site.faults
  transfers : n'.site.transfers = [t']
  machine : t'.station.machine = t.station.machine
  result : t'.station.result = t.station.result
  client : n'.client.machine = n.client.machine
  clientResult : n'.client.result = n.client.result
  address : t'.address = t.address
  toClient : ∀ x, x ∈ pending n'.client.queue n'.wire a.client ↔
    x ∈ pending n.client.queue n.wire a.client
  toTransfer : ∀ x, x ∈ pending t'.station.queue n'.wire t.address ↔
    x ∈ pending t.station.queue n.wire t.address
  burden : burden n' t' < burden n t

theorem Linked.lighter (h : Linked a j n t s activity) {t' : Transfer} (hsound' : n'.Sound a j)
    (hlighter : Lighter a n n' t t')
    (hlate : prompt → t.station.machine.Late → t'.station.queue = t.station.queue) :
    Nearing a j prompt n t s activity n' t' s activity := by
  obtain ⟨hlively, hfruitful, hhopeful⟩ :=
    h.lively.of_same_pending hlighter.toClient hlighter.toTransfer
  have htalk : talk a n' t' s activity = { talk a n t s activity with
      toClient := pending n'.client.queue n'.wire a.client
      toTransfer := pending t'.station.queue n'.wire t.address } := by
    unfold talk
    rw [hlighter.client, hlighter.address]
  rw [← htalk] at hlively hfruitful hhopeful
  rw [h.machine] at hlate
  refine ⟨⟨hsound', hlighter.link.trans h.up, ?_, ?_, hlighter.transfers,
    hlighter.machine.trans h.machine, hlively, ?_, ?_⟩,
    nearer_of (Or.inr ⟨?_, Or.inr ⟨Talk.lack_mono Iff.rfl hfruitful,
      Or.inr ⟨rfl, Or.inl hlighter.burden⟩⟩⟩),
    fun hprompt hassured => hassured.keep rfl rfl hhopeful (hlate hprompt)⟩
  · rw [hlighter.faults]
    exact h.idle
  · rw [hlighter.siteFaults]
    exact h.idleSite
  · rw [hlighter.client, hlighter.clientResult]
    exact h.clientResult
  · rw [hlighter.result]
    exact h.result
  · rw [htalk]
    rfl

/-- A datagram that arrives is lighter than before. -/
theorem Linked.deliver (h : Linked a j n t s activity) {index : Nat}
    (hstep : n.act a (.deliver index) = some n') :
    ∃ t', Nearing a j (n.Prompt index) n t s activity n' t' s activity := by
  have hsound' := h.sound.act hstep
  obtain ⟨d, hd, rfl⟩ := Option.map_eq_some_iff.mp hstep
  obtain ⟨haway, hserver⟩ := h.address
  have hsum : d.arrival.weight + 1 + wireLoad (n.wire.eraseIdx index) = wireLoad n.wire :=
    total_eraseIdx (fun d : Delivery => d.arrival.weight + 1) hd
  have hload : ∀ queue : List Arrival,
      load (queue ++ [d.arrival]) = load queue + d.arrival.weight := by
    intro queue
    exact total_append _ _ _
  rcases @arrive_single a { n with wire := n.wire.eraseIdx index } t h.transfers d with
    ⟨htarget, harrive⟩ | ⟨hnot, htarget, harrive⟩ | ⟨hnot, htarget, harrive⟩ |
    ⟨hnot, hnot', harrive⟩
  · rw [harrive] at hsound' ⊢
    refine ⟨t, h.lighter hsound' ⟨rfl, rfl, rfl, h.transfers, rfl, rfl, rfl, rfl, rfl,
      mem_pending_arrived hd htarget,
      fun x => by rw [pending_elsewhere hd (by rw [htarget]; exact Ne.symm haway)], ?_⟩
      fun _ _ => rfl⟩
    show load (n.client.queue ++ [d.arrival]) + load t.station.queue +
      wireLoad (n.wire.eraseIdx index) < load n.client.queue + load t.station.queue + wireLoad n.wire
    rw [hload]
    omega
  · rw [harrive] at hsound' ⊢
    refine ⟨t, h.lighter hsound' ⟨rfl, rfl, rfl, h.transfers, rfl, rfl, rfl, rfl, rfl,
      fun x => by rw [pending_elsewhere hd hnot],
      fun x => by rw [pending_elsewhere hd (by rw [htarget]; exact Ne.symm hserver)], ?_⟩
      fun _ _ => rfl⟩
    show load n.client.queue + load t.station.queue + wireLoad (n.wire.eraseIdx index) <
      load n.client.queue + load t.station.queue + wireLoad n.wire
    omega
  · rw [harrive] at hsound' ⊢
    refine ⟨_, h.lighter hsound' ⟨rfl, rfl, rfl, rfl, rfl, rfl, rfl, rfl, rfl,
      fun x => by rw [pending_elsewhere hd hnot], mem_pending_arrived hd htarget, ?_⟩
      fun hprompt hlate => absurd htarget (hprompt.2 d hd t (by simp [h.transfers]) hlate)⟩
    show load n.client.queue + load (t.station.queue ++ [d.arrival]) +
      wireLoad (n.wire.eraseIdx index) < load n.client.queue + load t.station.queue + wireLoad n.wire
    rw [hload]
    omega
  · rw [harrive] at hsound' ⊢
    refine ⟨t, h.lighter hsound' ⟨rfl, rfl, rfl, h.transfers, rfl, rfl, rfl, rfl, rfl,
      fun x => by rw [pending_elsewhere hd hnot], fun x => by rw [pending_elsewhere hd hnot'], ?_⟩
      fun _ _ => rfl⟩
    show load n.client.queue + load t.station.queue + wireLoad (n.wire.eraseIdx index) <
      load n.client.queue + load t.station.queue + wireLoad n.wire
    omega

/-! ## A wait that is over -/

/-- When nothing can happen before the transfer has ended, then the transfer waits and nothing is
pending. -/
theorem Linked.waits (h : Linked a j n t s activity) (hquiet : n.Quiet)
    (hended : t.station.ended = false) :
    (∃ goal, activity = .waiting goal) ∧ t.station.queue = [] ∧ n.client.queue = [] := by
  obtain ⟨hwire, hclient, htransfers⟩ := hquiet
  have hstep := Station.step_of_advance_eq_none (htransfers t (by simp [h.transfers])) hended
  obtain ⟨hwaiting, hqueue⟩ : (∃ goal, activity = .waiting goal) ∧ t.station.queue = [] := by
    have hgoes := h.transfer_goes
    rw [hstep] at hgoes
    generalize t.station.queue = queue at hgoes
    cases hgoes
    exact ⟨⟨_, rfl⟩, rfl⟩
  refine ⟨hwaiting, hqueue, ?_⟩
  have hnone : n.client.ended = false := by
    rcases h.clientResult with hresult | ⟨hfinished, -⟩
    · rw [Station.ended, hresult]
      rfl
    · -- a client that has the whole file has confirmed the end, and this is not pending
      exfalso
      obtain ⟨goal, hgoal⟩ := hwaiting
      rcases h.lively.confirmed hfinished with hdone | ⟨x, hx, -⟩
      · have : activity = .done := hdone
        rw [hgoal] at this
        cases this
      · change x ∈ pending t.station.queue n.wire t.address at hx
        rw [hqueue, hwire] at hx
        cases hx
  have hgoes := h.sound.client_goes
  rw [Station.step_of_advance_eq_none hclient hnone] at hgoes
  generalize n.client.queue = queue at hgoes
  cases hgoes
  all_goals rfl

/-- A wait that is over brings the two nearer to their end: what was missed can be sent again. -/
theorem Linked.timer (h : Linked a j n t s activity) (hquiet : n.Quiet) {index : Nat}
    (hstep : n.expireTransfer index = some n') :
    ∃ t' activity', Nearing a j prompt n t s activity n' t' s activity' := by
  have hsound' := h.sound.expireTransfer hstep
  obtain ⟨hended, rfl⟩ : t.station.ended = false ∧ n' = n.moved t t.station.expire := by
    obtain ⟨t', ht', hended, rfl⟩ := expireTransfer_cases hstep
    obtain ⟨rfl, rfl⟩ := index_of_single h.transfers ht'
    rw [replace_single h.transfers, post_nil]
    exact ⟨hended, rfl⟩
  obtain ⟨⟨goal, rfl⟩, hqueue, hclient⟩ := h.waits hquiet hended
  have hwire := hquiet.1
  have hexpired : t.station.expire.machine = .serving s (.overdue goal) := by
    show Upload.expire t.station.machine = _
    rw [h.machine]
    rfl
  have hclientNone : (talk a n t s (.waiting goal)).toClient = [] := by
    show pending n.client.queue n.wire a.client = []
    rw [hclient, hwire]
    rfl
  have hnone : (talk a n t s (.waiting goal)).toTransfer = [] := by
    show pending t.station.queue n.wire t.address = []
    rw [hqueue, hwire]
    rfl
  have hresult : t.station.result = none := by
    rcases h.result with hresult | ⟨hdone, -⟩
    · exact hresult
    · cases hdone
  have htalk : talk a (n.moved t t.station.expire) { t with station := t.station.expire } s
      (.overdue goal) = { talk a n t s (.waiting goal) with activity := .overdue goal } := rfl
  refine ⟨{ t with station := t.station.expire }, .overdue goal,
    ⟨hsound', h.up, h.idle, h.idleSite, rfl, hexpired, ?_, h.clientResult, Or.inl hresult⟩,
    nearer_of (Or.inr ⟨?_, Or.inl ?_⟩), fun _ hassured => ?_⟩
  · rw [htalk]
    exact h.lively.overdue rfl
  · rw [htalk]
    exact Talk.toGo_overdue rfl
  · rw [htalk]
    exact Talk.lack_overdue rfl hclientNone hnone
  · rw [htalk, show t.station.expire.queue = [] from hqueue]
    exact hassured.overdue h.talk_sound rfl hclientNone hnone

/-! ## What a step leads to -/

theorem Nearing.weaken {prompt' : Prop} {t' : Transfer} {s' : Serving} {activity' : Activity}
    (h : Nearing a j prompt n t s activity n' t' s' activity') (hprompt : prompt' → prompt) :
    Nearing a j prompt' n t s activity n' t' s' activity' :=
  ⟨h.linked, h.nearer, h.assured ∘ hprompt⟩

variable {may : Network → Nat → Prop}

/-- Whatever happens next, the two come nearer to their end, unless the transfer gives the client up; and if
datagrams are prompt, a transfer that is assured of a try stays so. -/
theorem Linked.calm_step (h : Linked a j n t s activity) (hstep : Calm a may n n') :
    (n'.GaveUp ∧ ¬ (talk a n t s activity).Assured t.station.queue) ∨
      ∃ t' s' activity', Nearing a j (∀ index, may n index → n.Prompt index) n t s activity
        n' t' s' activity' := by
  obtain ⟨event, hmay, hact⟩ := hstep
  cases event with
  | client => exact Or.inr ⟨t, s, activity, h.client_step hact⟩
  | transfer index => exact h.transfer_step hact
  | deliver index =>
      obtain ⟨t', hnearing⟩ := h.deliver hact
      exact Or.inr ⟨t', s, activity, hnearing.weaken fun h => h index hmay⟩
  | transferTimer index =>
      obtain ⟨t', activity', hnearing⟩ := h.timer hmay hact
      exact Or.inr ⟨t', s, activity', hnearing⟩
  | request => exact hmay.elim
  | clientTimer => exact hmay.elim
  | lose index => exact hmay.elim
  | duplicate index => exact hmay.elim
  | damage index bit => exact hmay.elim

/-- A transfer that has to send or to listen can take a step. -/
theorem Linked.goes_of_late (h : Linked a j n t s activity) (hlate : t.station.machine.Late) :
    ∃ n', n.act a (.transfer 0) = some n' := by
  rw [h.machine] at hlate
  have hended : t.station.ended = false := by
    rcases h.result with hresult | ⟨rfl, -⟩
    · rw [Station.ended, hresult]
      rfl
    · exact hlate.elim
  cases hadvance : t.station.advance n.site.link n.site.faults with
  | none =>
      have hgoes := h.transfer_goes
      rw [Station.step_of_advance_eq_none hadvance hended] at hgoes
      generalize t.station.queue = queue at hgoes
      cases hgoes
      exact hlate.elim
  | some moved =>
      refine ⟨n.replace 0 t moved, ?_⟩
      show n.stepTransfer 0 = _
      unfold stepTransfer
      rw [h.transfers]
      simp [hadvance]

/-- As long as the two have not come to their end, something can happen, if the first datagram may always
arrive, except at a transfer that is late. -/
theorem Linked.arrived_or_goes (h : Linked a j n t s activity)
    (hmay : may n 0 ∨ t.station.machine.Late) : n.Arrived j.file ∨ ∃ n', Calm a may n n' := by
  by_cases hquiet : n.Quiet
  · cases hended : t.station.ended with
    | false =>
        -- the transfer waits, so that its wait can be over
        right
        have hact : n.expireTransfer 0 = some (n.replace 0 t (t.station.expire, n.site.faults, [])) := by
          unfold expireTransfer
          rw [h.transfers]
          simp [hended]
        exact ⟨_, .transferTimer 0, hquiet, hact⟩
    | true =>
        left
        obtain ⟨hdone, r, hr⟩ : activity = .done ∧ ∃ r, t.station.result = some (.ok r) := by
          rcases h.result with hnone | hdone
          · rw [Station.ended, hnone] at hended
            cases hended
          · exact hdone
        have hfinished : n.client.machine.Finished :=
          (h.sound.transfers t (by simp [h.transfers])).ended r hr
        refine ⟨?_, ⟨t, r, h.transfers, hr⟩, (h.sound.written_of_finished hfinished).2⟩
        rcases h.clientResult with hnone | ⟨-, hclient⟩
        · -- a client that has the whole file does not wait any more
          exfalso
          have hclientEnded : n.client.ended = false := by
            rw [Station.ended, hnone]
            rfl
          have hgoes := h.sound.client_goes
          rw [Station.step_of_advance_eq_none hquiet.2.1 hclientEnded] at hgoes
          obtain ⟨s', hs'⟩ := hfinished
          generalize n.client.queue = queue at hgoes
          cases hgoes with
          | wait hstage =>
              rcases hstage with hstage | ⟨s, hstage⟩
              · rw [hs'] at hstage
                cases hstage
              · rw [hs'] at hstage
                cases hstage
        · exact hclient
  · right
    rcases goes_of_not_quiet h.transfers hquiet with ⟨n', hact⟩ | ⟨n', hact⟩ | ⟨n', hact⟩
    · exact ⟨n', .client, trivial, hact⟩
    · exact ⟨n', .transfer 0, trivial, hact⟩
    · rcases hmay with hmay | hlate
      · exact ⟨n', .deliver 0, hmay, hact⟩
      · obtain ⟨n', hact⟩ := h.goes_of_late hlate
        exact ⟨n', .transfer 0, trivial, hact⟩

end Network

end SelectiveReject.Scenario
