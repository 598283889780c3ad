import SelectiveReject.Proofs.Registry
import SelectiveReject.Proofs.Settling

/-!
# What becomes of one transfer among many

Without faults the transfers of a site do not meet: whatever a site does, each of its transfers comes to
what it would come to alone.  What a site does is described by a function from the station of a transfer
to its `Fate`, and what it does in sequence by the fates in sequence:

```
s.settle          each transfer  host.turn now        (settle_ran)
s.wait ms         each transfer  host.lapse (now + ms)   (wait_ran)
s then s'         each transfer  one fate, then the other   (Ran.comp)
```
-/

namespace SelectiveReject

namespace Scenario

/-! ## Fates -/

/-- What becomes of a transfer: where it stands, unless it has returned, and what it has sent. -/
structure Fate where
  station : Option (Station Upload)
  left : List Departure

namespace Fate

/-- Nothing happens. -/
def still (s : Station Upload) : Fate := ⟨some s, []⟩

/-- One thing happens after the other, while the transfer lives. -/
def andThen (x : Fate) (f : Station Upload → Fate) : Fate :=
  match x.station with
  | none => x
  | some s => ⟨(f s).station, x.left ++ (f s).left⟩

variable {x : Fate} {f : Station Upload → Fate}

theorem andThen_of_none (h : x.station = none) : x.andThen f = x := by
  rw [andThen, h]

theorem andThen_of_some {s : Station Upload} (h : x.station = some s) :
    x.andThen f = ⟨(f s).station, x.left ++ (f s).left⟩ := by
  rw [andThen, h]

end Fate

/-- A transfer that waits, or was broken off. -/
def Station.Paused (s : Station Upload) : Prop := s.Resting ∨ s.Halted

/-- A transfer that can be let run: it can move, or has paused. -/
structure Station.Ready (s : Station Upload) : Prop where
  patient : s.ended = false → s.machine.Patient
  paused : s.canMove = false → s.Paused

/-- A fate that a transfer for `client` can have: it sends to the client only, and goes on for it. -/
structure Fate.Fair (client : Address) (x : Fate) : Prop where
  target : ∀ d ∈ x.left, d.target = client
  station : ∀ s, x.station = some s → s.Ready ∧ s.machine.client = client

/-- How many more waits a transfer begins when nothing is heard. -/
def Station.waits (s : Station Upload) : Nat := if s.ended then 0 else s.machine.tries

/-- What the transfers of a site have in common. -/
structure Host where
  link : Link
  config : Config
  file : String → Source
  faults : FaultModel
  address : Nat → Address

namespace Host

/-- A transfer is let run, if it can move. -/
def turn (h : Host) (now : Nat) (s : Station Upload) : Fate :=
  if s.canMove then
    let (station, _, left) := s.settle h.link now h.faults
    ⟨if station.returned then none else some station, left⟩
  else .still s

/-- The wait of a transfer runs out if it is over. -/
def round (h : Host) (now : Nat) (s : Station Upload) : Fate :=
  if (s.dueBy now).isSome then h.turn now s.expire else .still s

/-- The waits of a transfer that are over by `limit` run out, at most `count` of them. -/
def lapseAtMost (h : Host) (limit : Nat) : Nat → Station Upload → Fate
  | 0, s => .still s
  | count + 1, s =>
      match s.dueBy limit with
      | none => .still s
      | some time => (h.turn time s.expire).andThen (h.lapseAtMost limit count)

/-- The waits of a transfer that are over by `limit` run out. -/
def lapse (h : Host) (limit : Nat) (s : Station Upload) : Fate :=
  h.lapseAtMost limit s.waits s

end Host

namespace Station

variable {s : Station Upload}

theorem Resting.waits_eq (h : s.Resting) : s.waits = s.machine.tries := by
  rw [waits, if_neg (by rw [h.running]; nofun)]

theorem Halted.waits_eq (h : s.Halted) : s.waits = 0 := if_pos h.ended

theorem Halted.canMove_eq (h : s.Halted) : s.canMove = false := by
  rw [canMove, h.ended]
  rfl

theorem Halted.dueBy_eq (h : s.Halted) (limit : Nat) : s.dueBy limit = none := by
  rw [dueBy, h.deadline]
  rfl

theorem running_of_canMove (h : s.canMove = true) : s.ended = false := by
  cases hended : s.ended with
  | false => rfl
  | true =>
      rw [canMove, hended] at h
      cases h

theorem Paused.not_canMove (h : s.Paused) : s.canMove = false :=
  h.elim Resting.not_canMove Halted.canMove_eq

/-- A transfer whose wait is over by some time waits. -/
theorem Paused.resting_of_due (h : s.Paused) {limit time : Nat} (hdue : s.dueBy limit = some time) :
    s.Resting :=
  h.resolve_right fun hhalted => by
    rw [hhalted.dueBy_eq] at hdue
    cases hdue

theorem Paused.ready (h : s.Paused) : s.Ready where
  patient hrunning := h.elim Resting.patient fun hhalted => by
    rw [hhalted.ended] at hrunning
    cases hrunning
  paused _ := h

theorem ready_start (config : Config) (r : FileRequest) (client : Address) (source : Source) :
    (start (Upload.start config r client source)).Ready := ⟨fun _ => trivial, nofun⟩

/-- With a datagram in its queue a transfer can move. -/
theorem canMove_enqueue (hrunning : s.ended = false) (x : Arrival) :
    (s.enqueue [x]).canMove = true := by
  show (!s.ended && (s.deadline.isNone || !(s.queue ++ [x]).isEmpty)) = true
  rw [hrunning]
  simp

theorem Ready.enqueue (h : s.Ready) (x : Arrival) : (s.enqueue [x]).Ready where
  patient := h.patient
  paused hmove := by
    cases hended : s.ended with
    | false =>
        rw [canMove_enqueue hended] at hmove
        cases hmove
    | true =>
        have hpaused := h.paused (by rw [canMove, hended]; rfl)
        refine hpaused.imp (fun hrests => ?_) fun hhalted => ⟨hhalted.ended, hhalted.deadline⟩
        rw [hrests.running] at hended
        cases hended

/-- A transfer whose wait is over can move. -/
theorem canMove_expire (hrunning : s.ended = false) : s.expire.canMove = true := by
  show (!s.ended && true) = true
  rw [hrunning]
  rfl

theorem Resting.ready_expire (h : s.Resting) : s.expire.Ready := by
  obtain ⟨u, goal, hmachine⟩ := h.waiting
  refine ⟨fun _ => ?_, fun hmove => ?_⟩
  · show (Upload.expire s.machine).Patient
    rw [hmachine]
    trivial
  · rw [canMove_expire h.running] at hmove
    cases hmove

theorem dueBy_eq_some_iff {limit time : Nat} :
    s.dueBy limit = some time ↔ s.deadline = some time ∧ time ≤ limit := by
  simp [dueBy, Option.filter_eq_some_iff]

end Station

namespace Host

variable {h : Host} {now limit : Nat} {s : Station Upload}

theorem turn_of_canMove (hmove : s.canMove = true) : h.turn now s =
    ⟨if (s.settle h.link now h.faults).1.returned then none else some (s.settle h.link now h.faults).1,
      (s.settle h.link now h.faults).2.2⟩ := by
  rw [turn, if_pos hmove]

theorem turn_of_not_canMove (hmove : s.canMove = false) : h.turn now s = .still s := by
  rw [turn, if_neg (by rw [hmove]; nofun)]

/-- A transfer that stays after its turn is what it has settled to. -/
theorem settle_of_turn (hmove : s.canMove = true) {s' : Station Upload}
    (hs' : (h.turn now s).station = some s') : (s.settle h.link now h.faults).1 = s' := by
  rw [turn_of_canMove hmove] at hs'
  dsimp only at hs'
  split at hs'
  · cases hs'
  · exact Option.some.inj hs'

/-- A transfer that is let run sends to its client only, and pauses. -/
theorem turn_settled (hidle : h.faults.Idle) (hready : s.Ready) :
    (∀ d ∈ (h.turn now s).left, d.target = s.machine.client) ∧
      ∀ s', (h.turn now s).station = some s' → s'.Paused ∧ s'.machine.client = s.machine.client := by
  cases hmove : s.canMove with
  | false =>
      rw [turn_of_not_canMove hmove]
      refine ⟨nofun, fun s' hs' => ?_⟩
      cases hs'
      exact ⟨hready.paused hmove, rfl⟩
  | true =>
      have hrunning := Station.running_of_canMove hmove
      have hsettled : s.Settled h.faults (s.settle h.link now h.faults) :=
        Station.settle_settled hidle hrunning (hready.patient hrunning)
      refine ⟨?_, fun s' hs' => ?_⟩
      · rw [turn_of_canMove hmove]
        exact hsettled.target
      · obtain rfl := settle_of_turn hmove hs'
        refine ⟨?_, hsettled.client⟩
        cases hended : (s.settle h.link now h.faults).1.ended with
        | false => exact Or.inl (hsettled.rests hended)
        | true => exact Or.inr (hsettled.halts hended)

theorem turn_fair (hidle : h.faults.Idle) (hready : s.Ready) :
    (h.turn now s).Fair s.machine.client where
  target := (turn_settled hidle hready).1
  station s' hs' :=
    have hrests := (turn_settled hidle hready).2 s' hs'
    ⟨hrests.1.ready, hrests.2⟩

/-- When a wait is over, one less is left, or none. -/
theorem waits_turn_expire (hidle : h.faults.Idle) (hrests : s.Resting) {s' : Station Upload}
    (hs' : (h.turn now s.expire).station = some s') :
    s'.Resting ∧ s'.waits + 1 = s.waits ∨ s'.Halted ∧ s'.waits < s.waits := by
  obtain ⟨hsettled, htries⟩ := @Station.Resting.expired h.link h.faults now s hrests hidle
  obtain rfl := settle_of_turn (Station.canMove_expire hrests.running) hs'
  have hpos := hrests.tries_pos
  rw [hrests.waits_eq]
  cases hended : (s.expire.settle h.link now h.faults).1.ended with
  | false =>
      have hrests' := hsettled.rests hended
      exact Or.inl ⟨hrests', by rw [hrests'.waits_eq]; exact htries hended⟩
  | true =>
      have hhalted := hsettled.halts hended
      exact Or.inr ⟨hhalted, by rw [hhalted.waits_eq]; exact hpos⟩

/-- A transfer whose wait is not over by the limit stays as it is. -/
theorem lapseAtMost_of_not_due (hdue : s.dueBy limit = none) (count : Nat) :
    h.lapseAtMost limit count s = .still s := by
  cases count with
  | zero => rfl
  | succ count => rw [lapseAtMost, hdue]

theorem lapse_of_not_due (hdue : s.dueBy limit = none) : h.lapse limit s = .still s :=
  lapseAtMost_of_not_due hdue _

/-- A transfer whose wait is over by the limit goes on when it is, and then as before. -/
theorem lapse_of_due (hidle : h.faults.Idle) (hrests : s.Resting) {time : Nat}
    (hdue : s.dueBy limit = some time) :
    h.lapse limit s = (h.turn time s.expire).andThen (h.lapse limit) := by
  have hpos := hrests.waits_eq ▸ hrests.tries_pos
  have hcount : s.waits = (s.waits - 1) + 1 := by omega
  rw [lapse, hcount, lapseAtMost, hdue]
  show Fate.andThen _ _ = Fate.andThen _ _
  unfold Fate.andThen
  split
  · rfl
  · rename_i s' hs'
    rcases waits_turn_expire hidle hrests hs' with ⟨-, hless⟩ | ⟨hhalted, -⟩
    · rw [lapse, show s'.waits = s.waits - 1 by omega]
    · rw [lapse_of_not_due (hhalted.dueBy_eq limit), lapseAtMost_of_not_due (hhalted.dueBy_eq limit)]

/-- A round costs a transfer whose wait is over one try, and the others none. -/
theorem waits_round (hidle : h.faults.Idle) (hpaused : s.Paused) {s' : Station Upload}
    (hs' : (h.round now s).station = some s') :
    s'.waits ≤ s.waits ∧ ((s.dueBy now).isSome → s'.waits < s.waits) := by
  unfold round at hs'
  split at hs'
  · rename_i hdue
    obtain ⟨time, htime⟩ := Option.isSome_iff_exists.mp hdue
    have hless := waits_turn_expire hidle (hpaused.resting_of_due htime) hs'
    omega
  · rename_i hdue
    cases hs'
    exact ⟨Nat.le_refl _, fun hdue' => absurd hdue' hdue⟩

/-- A round at a time before which no wait is over begins what becomes of a transfer by the limit. -/
theorem round_andThen_lapse (hidle : h.faults.Idle) (hpaused : s.Paused) (hlimit : now ≤ limit)
    (hfirst : ∀ time, s.dueBy limit = some time → now ≤ time) :
    (h.round now s).andThen (h.lapse limit) = h.lapse limit s := by
  unfold round
  cases hdue : s.dueBy now with
  | none => exact Fate.andThen_of_some rfl
  | some time =>
      obtain ⟨hdeadline, hle⟩ := Station.dueBy_eq_some_iff.mp hdue
      have hdue' : s.dueBy limit = some time :=
        Station.dueBy_eq_some_iff.mpr ⟨hdeadline, Nat.le_trans hle hlimit⟩
      have hnow : time = now := Nat.le_antisymm hle (hfirst time hdue')
      rw [lapse_of_due hidle (hpaused.resting_of_due hdue') hdue', hnow]
      rfl

end Host

/-! ## Sites -/

/-- A transfer after its station had a fate, unless it has returned. -/
def Transfer.carry (t : Transfer) (f : Station Upload → Fate) : Option Transfer :=
  (f t.station).station.map fun station => { t with station := station }

/-- What a transfer sent while its station had a fate. -/
def Transfer.sent (t : Transfer) (f : Station Upload → Fate) : List Delivery :=
  (f t.station).left.map fun d => ⟨t.address, d⟩

section
variable {f g : Station Upload → Fate} {t t' : Transfer}

theorem Transfer.carry_eq_some (h : t.carry f = some t') :
    t'.client = t.client ∧ t'.address = t.address ∧ (f t.station).station = some t'.station := by
  obtain ⟨station, hstation, rfl⟩ := Option.map_eq_some_iff.mp h
  exact ⟨rfl, rfl, hstation⟩

theorem Transfer.carry_andThen (t : Transfer) (f g : Station Upload → Fate) :
    t.carry (fun station => (f station).andThen g) = (t.carry f).bind (·.carry g) := by
  simp only [carry]
  cases h : (f t.station).station with
  | none =>
      rw [Fate.andThen_of_none h, h]
      rfl
  | some station =>
      rw [Fate.andThen_of_some h]
      rfl

theorem Transfer.sent_andThen (t : Transfer) (f g : Station Upload → Fate) :
    t.sent (fun station => (f station).andThen g) =
      t.sent f ++ ((t.carry f).map (·.sent g)).getD [] := by
  simp only [sent, carry]
  cases h : (f t.station).station with
  | none =>
      rw [Fate.andThen_of_none h]
      exact (List.append_nil _).symm
  | some station =>
      rw [Fate.andThen_of_some h]
      exact List.map_append

end

namespace Site

/-- What the transfers of a site have in common. -/
def host (s : Site) : Host := ⟨s.link, s.server.config, s.file, s.faults, s.address⟩

/-- The transfer of a client, if it has one. -/
def transferOf (s : Site) (client : Address) : Option Transfer :=
  s.transfers.find? fun t => t.client = client

/-- Every transfer has paused. -/
def AtRest (s : Site) : Prop := ∀ t ∈ s.transfers, t.station.Paused

/-- A site without faults whose transfers can be told apart: by their clients, and by their addresses,
since the n-th transfer belongs to the n-th owner. -/
structure Orderly (owner : Nat → Address) (s : Site) : Prop where
  idle : s.host.faults.Idle
  fresh : Function.Injective s.host.address
  listed : s.server.clients = s.transfers.map (·.client)
  once : (s.transfers.map (·.client)).Nodup
  owned : ∀ t ∈ s.transfers, ∃ n < s.begun, t.address = s.host.address n ∧ t.client = owner n
  ready : ∀ t ∈ s.transfers, t.station.Ready ∧ t.station.machine.client = t.client

/-- Each transfer of a site has had its fate. -/
structure Ran (f : Station Upload → Fate) (s s' : Site) (left : List Delivery) : Prop where
  host : s'.host = s.host
  begun : s'.begun = s.begun
  transfers : s'.transfers = s.transfers.filterMap (·.carry f)
  listed : s'.server.clients = s'.transfers.map (·.client)
  fair : ∀ t ∈ s.transfers, (f t.station).Fair t.client
  sent : ∀ client, left.filter (fun d => d.departure.target = client) =
    ((s.transferOf client).map (·.sent f)).getD []

variable {owner : Nat → Address} {f g : Station Upload → Fate} {s s' s'' : Site}
  {left more : List Delivery} {t t' : Transfer} {client : Address} {now : Nat} {x : Arrival}

theorem transferOf_mem (h : s.transferOf client = some t) : t ∈ s.transfers ∧ t.client = client := by
  have hfound := List.find?_some h
  exact ⟨List.mem_of_find?_eq_some h, of_decide_eq_true hfound⟩

/-- A transfer that has had its fate is what one of the transfers before has become. -/
theorem Ran.mem (h : s.Ran f s' left) (ht : t' ∈ s'.transfers) :
    ∃ t ∈ s.transfers, t.carry f = some t' := by
  rw [h.transfers] at ht
  exact List.mem_filterMap.mp ht

/-- The fates of an orderly site keep it orderly. -/
theorem Orderly.ran (h : s.Orderly owner) (hran : s.Ran f s' left) : s'.Orderly owner where
  idle := by
    rw [hran.host]
    exact h.idle
  fresh := by
    rw [hran.host]
    exact h.fresh
  listed := hran.listed
  once := by
    rw [hran.transfers]
    exact (filterMap_keys fun t _ t' ht' => (Transfer.carry_eq_some ht').1).nodup h.once
  owned t' ht' := by
    obtain ⟨t, ht, hcarry⟩ := hran.mem ht'
    obtain ⟨hclient, haddress, -⟩ := Transfer.carry_eq_some hcarry
    rw [hran.begun, hran.host, hclient, haddress]
    exact h.owned t ht
  ready t' ht' := by
    obtain ⟨t, ht, hcarry⟩ := hran.mem ht'
    obtain ⟨hclient, -, hstation⟩ := Transfer.carry_eq_some hcarry
    rw [hclient]
    exact (hran.fair t ht).station t'.station hstation

/-- The transfer of a client has its own fate. -/
theorem Ran.transferOf (hran : s.Ran f s' left) (h : s.Orderly owner) (client : Address) :
    s'.transferOf client = (s.transferOf client).bind (·.carry f) := by
  unfold Site.transferOf
  rw [hran.transfers]
  exact find?_filterMap_key (fun t _ t' ht' => (Transfer.carry_eq_some ht').1) h.once client

/-- What has left a site is from one of its transfers, to that transfer's client. -/
theorem Ran.of_sent (hran : s.Ran f s' left) {d : Delivery} (hd : d ∈ left) :
    ∃ t ∈ s.transfers, d.source = t.address ∧ d.departure.target = t.client := by
  have hmem : d ∈ left.filter fun d' => d'.departure.target = d.departure.target :=
    List.mem_filter.mpr ⟨hd, decide_eq_true rfl⟩
  rw [hran.sent] at hmem
  cases hof : s.transferOf d.departure.target with
  | none =>
      rw [hof] at hmem
      cases hmem
  | some t =>
      rw [hof] at hmem
      obtain ⟨departure, -, hdelivery⟩ := List.mem_map.mp hmem
      exact ⟨t, (transferOf_mem hof).1, (congrArg Delivery.source hdelivery).symm,
        (transferOf_mem hof).2.symm⟩

/-- One fate after the other. -/
theorem Ran.comp (hran : s.Ran f s' left) (h : s.Orderly owner) (hthen : s'.Ran g s'' more) :
    s.Ran (fun station => (f station).andThen g) s'' (left ++ more) where
  host := hthen.host.trans hran.host
  begun := hthen.begun.trans hran.begun
  transfers := by
    rw [hthen.transfers, hran.transfers, List.filterMap_filterMap]
    simp only [Transfer.carry_andThen]
  listed := hthen.listed
  fair t ht := by
    have hfair := hran.fair t ht
    show ((f t.station).andThen g).Fair t.client
    cases hstation : (f t.station).station with
    | none =>
        rw [Fate.andThen_of_none hstation]
        exact hfair
    | some station =>
        have hmem : { t with station := station } ∈ s'.transfers := by
          rw [hran.transfers]
          exact List.mem_filterMap.mpr ⟨t, ht, by rw [Transfer.carry, hstation]; rfl⟩
        have hfair' := hthen.fair _ hmem
        rw [Fate.andThen_of_some hstation]
        refine ⟨fun d hd => ?_, hfair'.station⟩
        rcases List.mem_append.mp hd with hd | hd
        · exact hfair.target d hd
        · exact hfair'.target d hd
  sent client := by
    rw [List.filter_append, hran.sent, hthen.sent, hran.transferOf h]
    cases s.transferOf client with
    | none => rfl
    | some t => exact (t.sent_andThen f g).symm

/-- A fate may be put in another way. -/
theorem Ran.congr (h : s.Ran f s' left) (heq : ∀ t ∈ s.transfers, f t.station = g t.station) :
    s.Ran g s' left where
  host := h.host
  begun := h.begun
  transfers := by
    have hcarry : ∀ t ∈ s.transfers, t.carry f = t.carry g := fun t ht => by
      rw [Transfer.carry, Transfer.carry, heq t ht]
    have hmap := congrArg (List.filterMap id) (List.map_congr_left hcarry)
    rw [List.filterMap_map, List.filterMap_map] at hmap
    exact h.transfers.trans hmap
  listed := h.listed
  fair t ht := by
    rw [← heq t ht]
    exact h.fair t ht
  sent client := by
    rw [h.sent]
    cases hof : s.transferOf client with
    | none => rfl
    | some t =>
        rw [Option.map_some, Option.map_some, Transfer.sent, Transfer.sent,
          heq t (transferOf_mem hof).1]

/-- A site at which nothing happens. -/
theorem Orderly.still (h : s.Orderly owner) : s.Ran .still s [] where
  host := rfl
  begun := rfl
  transfers := List.filterMap_some.symm
  listed := h.listed
  fair t ht := ⟨nofun, fun station hstation => by
    cases hstation
    exact h.ready t ht⟩
  sent client := by
    cases s.transferOf client <;> rfl

/-- The clock is not part of what a site is. -/
theorem Orderly.clock (h : s.Orderly owner) (now : Nat) : { s with now := now }.Orderly owner :=
  ⟨h.idle, h.fresh, h.listed, h.once, h.owned, h.ready⟩

theorem Ran.clock (h : s.Ran f s' left) (now : Nat) : s.Ran f { s' with now := now } left :=
  ⟨h.host, h.begun, h.transfers, h.listed, h.fair, h.sent⟩

theorem Ran.of_clock (h : ({ s with now := now } : Site).Ran f s' left) : s.Ran f s' left :=
  ⟨h.host, h.begun, h.transfers, h.listed, h.fair, h.sent⟩

/-! ### Letting transfers run -/

/-- A site after a transfer has taken its turn: the registry forgets it if it has returned. -/
def took (s : Site) (t : Transfer) : Site :=
  match t.carry (s.host.turn s.now) with
  | none => { s with server := s.server.close t.client }
  | some t' => { s with transfers := s.transfers ++ [t'] }

theorem took_same (s : Site) (t : Transfer) :
    (s.took t).host = s.host ∧ (s.took t).begun = s.begun ∧ (s.took t).now = s.now := by
  unfold took
  split <;> exact ⟨rfl, rfl, rfl⟩

/-- One transfer after the other takes its turn. -/
theorem settleAll_cons (hidle : s.host.faults.Idle) (hready : t.station.Ready) (rest : List Transfer) :
    s.settleAll (t :: rest) = (((s.took t).settleAll rest).1,
      t.sent (s.host.turn s.now) ++ ((s.took t).settleAll rest).2) := by
  cases hmove : t.station.canMove with
  | false =>
      rw [settleAll, if_neg (by rw [hmove]; nofun), took, Transfer.sent, Transfer.carry,
        Host.turn_of_not_canMove hmove]
      rfl
  | true =>
      have hrunning := Station.running_of_canMove hmove
      have hfaults : (t.station.settle s.link s.now s.faults).2.1 = s.faults :=
        (Station.settle_settled hidle hrunning (hready.patient hrunning)).faults
      have hturn : s.host.turn s.now t.station =
          ⟨if (t.station.settle s.link s.now s.faults).1.returned then none
            else some (t.station.settle s.link s.now s.faults).1,
            (t.station.settle s.link s.now s.faults).2.2⟩ := Host.turn_of_canMove hmove
      rw [settleAll, if_pos hmove, took, Transfer.sent, Transfer.carry, hturn]
      simp only [hfaults]
      cases (t.station.settle s.link s.now s.faults).1.returned <;> rfl

/-- The registry lists the clients of the transfers after one of them has taken its turn. -/
theorem took_listed {rest : List Transfer}
    (hlisted : s.server.clients = (s.transfers ++ t :: rest).map (·.client))
    (honce : ((s.transfers ++ t :: rest).map (·.client)).Nodup) :
    (s.took t).server.clients = ((s.took t).transfers ++ rest).map (·.client) ∧
      (((s.took t).transfers ++ rest).map (·.client)).Nodup := by
  rw [List.map_append, List.map_cons] at hlisted honce
  unfold took
  split
  · have hclosed : (s.server.close t.client).clients = (s.transfers ++ rest).map (·.client) := by
      rw [Server.clients_close, hlisted, filter_ne_of_nodup honce, List.map_append]
    refine ⟨hclosed, ?_⟩
    rw [List.map_append]
    exact honce.sublist ((List.Sublist.refl _).append (List.sublist_cons_self _ _))
  · rename_i t' hcarry
    rw [List.append_assoc, List.map_append, List.singleton_append, List.map_cons,
      (Transfer.carry_eq_some hcarry).1]
    exact ⟨hlisted, honce⟩

theorem settleAll_ran (rest : List Transfer) : ∀ s : Site, s.host.faults.Idle →
    (∀ t ∈ rest, t.station.Ready ∧ t.station.machine.client = t.client) →
    s.server.clients = (s.transfers ++ rest).map (·.client) →
    ((s.transfers ++ rest).map (·.client)).Nodup →
    (s.settleAll rest).1.host = s.host ∧ (s.settleAll rest).1.begun = s.begun ∧
      (s.settleAll rest).1.now = s.now ∧
      (s.settleAll rest).1.transfers =
        s.transfers ++ rest.filterMap (·.carry (s.host.turn s.now)) ∧
      (s.settleAll rest).1.server.clients = (s.settleAll rest).1.transfers.map (·.client) ∧
      (s.settleAll rest).2 = rest.flatMap (·.sent (s.host.turn s.now)) := by
  induction rest with
  | nil =>
      intro s _ _ hlisted _
      rw [List.append_nil] at hlisted
      exact ⟨rfl, rfl, rfl, (List.append_nil _).symm, hlisted, rfl⟩
  | cons t rest ih =>
      intro s hidle hready hlisted honce
      obtain ⟨hhost, hbegun, hnow⟩ := took_same s t
      obtain ⟨hlisted', honce'⟩ := took_listed hlisted honce
      obtain ⟨ihhost, ihbegun, ihnow, ihtransfers, ihlisted, ihsent⟩ := ih (s.took t)
        (by rw [hhost]; exact hidle) (fun t' ht' => hready t' (List.mem_cons_of_mem _ ht')) hlisted' honce'
      rw [hhost, hnow] at ihtransfers ihsent
      rw [settleAll_cons hidle (hready t List.mem_cons_self).1]
      refine ⟨ihhost.trans hhost, ihbegun.trans hbegun, ihnow.trans hnow, ?_, ihlisted, ?_⟩
      · show ((s.took t).settleAll rest).1.transfers = _
        rw [ihtransfers, took, List.filterMap_cons]
        cases t.carry (s.host.turn s.now) with
        | none => rfl
        | some t' => exact List.append_assoc _ _ _
      · show _ ++ ((s.took t).settleAll rest).2 = _
        rw [ihsent, List.flatMap_cons]

/-- **Each transfer takes its turn**, as if there were no others. -/
theorem settle_ran (h : s.Orderly owner) :
    s.Ran (s.host.turn s.now) s.settle.1 s.settle.2 ∧ s.settle.1.AtRest ∧ s.settle.1.now = s.now := by
  have hempty : ({ s with transfers := [] } : Site).host = s.host := rfl
  obtain ⟨hhost, hbegun, hnow, htransfers, hlisted, hsent⟩ :=
    settleAll_ran s.transfers { s with transfers := [] } h.idle h.ready h.listed h.once
  have hfair : ∀ t ∈ s.transfers, (s.host.turn s.now t.station).Fair t.client := fun t ht => by
    rw [← (h.ready t ht).2]
    exact Host.turn_fair h.idle (h.ready t ht).1
  refine ⟨⟨hhost, hbegun, htransfers, hlisted, hfair, fun client => ?_⟩, fun t' ht' => ?_, hnow⟩
  · have hmark : ∀ t ∈ s.transfers, ∀ d ∈ t.sent (s.host.turn s.now),
        d.departure.target = t.client := by
      intro t ht d hd
      obtain ⟨departure, hleft, rfl⟩ := List.mem_map.mp hd
      exact (hfair t ht).target departure hleft
    show List.filter _ (settleAll _ s.transfers).2 = _
    rw [hsent]
    exact filter_flatMap_key hmark h.once client
  · have hmem : t' ∈ s.transfers.filterMap (·.carry (s.host.turn s.now)) := by
      have htransfers' : s.settle.1.transfers = _ := htransfers
      rwa [htransfers'] at ht'
    obtain ⟨t, ht, hcarry⟩ := List.mem_filterMap.mp hmem
    exact ((Host.turn_settled h.idle (h.ready t ht).1).2 _ (Transfer.carry_eq_some hcarry).2.2).1

/-! ### Letting time pass -/

/-- The waits that are over run out. -/
theorem expireDue_ran (h : s.Orderly owner) (hrest : s.AtRest) :
    s.Ran (fun station => .still (if (station.dueBy s.now).isSome then station.expire else station))
      s.expireDue [] where
  host := rfl
  begun := rfl
  transfers := by
    show s.transfers.map _ = _
    rw [← List.filterMap_eq_map]
    congr 1
    funext t
    simp only [Function.comp_apply, Transfer.carry, Fate.still, Option.map_some]
    split <;> rfl
  listed := by
    show s.server.clients = (s.transfers.map _).map _
    rw [h.listed, List.map_map]
    congr 1
    funext t
    show t.client = Transfer.client (if _ then _ else _)
    split <;> rfl
  fair t ht := by
    refine ⟨nofun, fun station hstation => ?_⟩
    cases hstation
    split
    · rename_i hdue
      obtain ⟨time, htime⟩ := Option.isSome_iff_exists.mp hdue
      exact ⟨((hrest t ht).resting_of_due htime).ready_expire,
        t.station.machine.client_expire.trans (h.ready t ht).2⟩
    · exact h.ready t ht
  sent client := by
    cases s.transferOf client <;> rfl

/-- Each transfer has a round. -/
theorem round_ran (h : s.Orderly owner) (hrest : s.AtRest) :
    s.Ran (s.host.round s.now) s.expireDue.settle.1 s.expireDue.settle.2 ∧
      s.expireDue.settle.1.AtRest := by
  have hexpire := expireDue_ran h hrest
  obtain ⟨hsettle, hrest', -⟩ := settle_ran (h.ran hexpire)
  refine ⟨(hexpire.comp h hsettle).congr fun t ht => ?_, hrest'⟩
  show (Fate.still _).andThen (s.host.turn s.now) = _
  rw [Fate.andThen_of_some rfl, Host.round]
  split
  · rfl
  · rw [Host.turn_of_not_canMove (hrest t ht).not_canMove]
    rfl

/-- How many more waits the transfers begin when nothing is heard. -/
def waits (s : Site) : Nat := total (·.station.waits) s.transfers

/-- A round in which a wait is over leaves fewer of them. -/
theorem Ran.waits (hran : s.Ran (s.host.round now) s' left) (h : s.Orderly owner) (hrest : s.AtRest)
    (hdue : ∃ t ∈ s.transfers, (t.station.dueBy now).isSome) : s'.waits < s.waits := by
  obtain ⟨t, ht, hdue⟩ := hdue
  have hround : ∀ t ∈ s.transfers, ∀ t', t.carry (s.host.round now) = some t' → _ := fun t ht t' ht' =>
    Host.waits_round h.idle (hrest t ht) (Transfer.carry_eq_some ht').2.2
  obtain ⟨time, htime⟩ := Option.isSome_iff_exists.mp hdue
  have hrests := (hrest t ht).resting_of_due htime
  have hless := (total_filterMap (·.station.waits) fun t ht t' ht' =>
    (hround t ht t' ht').1).2 t ht (hrests.waits_eq ▸ hrests.tries_pos) fun t' ht' =>
      (hround t ht t' ht').2 hdue
  rw [← hran.transfers] at hless
  exact hless

/-- The waits that are over by the limit run out, one after the other, if `count` is enough. -/
theorem pass_ran (limit count : Nat) : ∀ s : Site, s.Orderly owner → s.AtRest → s.waits ≤ count →
    s.Ran (s.host.lapse limit) (s.pass limit count).1 (s.pass limit count).2 ∧
      (s.pass limit count).1.AtRest := by
  induction count with
  | zero =>
      intro s h hrest hcount
      refine ⟨h.still.congr fun t ht => ?_, hrest⟩
      rcases hrest t ht with hrests | hhalted
      · have hpos := hrests.waits_eq ▸ hrests.tries_pos
        have hle : _ ≤ s.waits := le_total_of_mem (·.station.waits) ht
        omega
      · exact (Host.lapse_of_not_due (hhalted.dueBy_eq limit)).symm
  | succ count ih =>
      intro s h hrest hcount
      cases hdue : s.dueBy limit with
      | none =>
          have hnone : ∀ t ∈ s.transfers, t.station.dueBy limit = none := by
            have hnil := List.min?_eq_none_iff.mp hdue
            exact List.filterMap_eq_nil_iff.mp hnil
          rw [pass, hdue]
          exact ⟨h.still.congr fun t ht => (Host.lapse_of_not_due (hnone t ht)).symm, hrest⟩
      | some time =>
          obtain ⟨hmem, hfirst⟩ := List.min?_eq_some_iff.mp hdue
          obtain ⟨t, ht, htime⟩ := List.mem_filterMap.mp hmem
          obtain ⟨hdeadline, hlimit⟩ := Station.dueBy_eq_some_iff.mp htime
          obtain ⟨hround, hrest'⟩ := round_ran (h.clock time) hrest
          have hless : ({ s with now := time } : Site).expireDue.settle.1.waits < s.waits :=
            hround.waits (h.clock time) hrest ⟨t, ht, by
              rw [Station.dueBy_eq_some_iff.mpr ⟨hdeadline, Nat.le_refl time⟩]
              rfl⟩
          obtain ⟨hpass, hrest''⟩ := ih _ ((h.clock time).ran hround) hrest' (by omega)
          rw [pass, hdue]
          refine ⟨?_, hrest''⟩
          -- the round and the rest are, for each transfer, all its waits that are over by the limit
          refine (Ran.of_clock (hround.comp (h.clock time) hpass)).congr fun t ht => ?_
          rw [hround.host]
          exact Host.round_andThen_lapse h.idle (hrest t ht) hlimit fun time' htime' =>
            hfirst time' (List.mem_filterMap.mpr ⟨t, ht, htime'⟩)

/-- The timers that a site lets run out are enough. -/
theorem waits_le_expiries (hrest : s.AtRest) :
    s.waits ≤ s.transfers.foldl (fun n t => n + Machine.expiries t.station.machine) 0 := by
  have hle : ∀ (l : List Transfer) (n : Nat), (∀ t ∈ l, t.station.Paused) →
      n + total (·.station.waits) l ≤
        l.foldl (fun n t => n + Machine.expiries t.station.machine) n := by
    intro l
    induction l with
    | nil => exact fun n _ => Nat.le_refl n
    | cons t l ih =>
        intro n hrests
        have hone : t.station.waits ≤ Machine.expiries t.station.machine := by
          rcases hrests t List.mem_cons_self with hrests | hhalted
          · obtain ⟨u, goal, hmachine⟩ := hrests.waiting
            rw [hrests.waits_eq, hmachine]
            show u.retry.maxTries + 1 - u.retry.count ≤ u.retry.maxTries + 2
            omega
          · rw [hhalted.waits_eq]
            exact Nat.zero_le _
        have hrest := ih (n + Machine.expiries t.station.machine) fun t' ht' =>
          hrests t' (List.mem_cons_of_mem _ ht')
        have htotal : total (·.station.waits) (t :: l) =
          t.station.waits + total (·.station.waits) l := rfl
        rw [htotal, List.foldl_cons]
        omega
  have hall := hle s.transfers 0 hrest
  rwa [Nat.zero_add] at hall

/-- **Time passes for each transfer** as if there were no others. -/
theorem wait_ran (h : s.Orderly owner) (hrest : s.AtRest) (milliseconds : Nat) :
    s.Ran (s.host.lapse (s.now + milliseconds)) (s.wait milliseconds).1 (s.wait milliseconds).2 ∧
      (s.wait milliseconds).1.AtRest ∧ (s.wait milliseconds).1.now = s.now + milliseconds := by
  obtain ⟨hpass, hrest'⟩ := pass_ran (s.now + milliseconds) _ s h hrest (waits_le_expiries hrest)
  exact ⟨hpass.clock _, hrest', rfl⟩

/-! ### Datagrams from outside -/

/-- A client has a transfer just when the registry lists it. -/
theorem Orderly.transferOf_eq_none_iff (h : s.Orderly owner) :
    s.transferOf client = none ↔ client ∉ s.server.clients := by
  rw [h.listed, transferOf, List.find?_eq_none]
  simp

/-- A datagram at the listening address starts a transfer, or nothing happens. -/
theorem receive_cases (s : Site) (x : Arrival) :
    (∃ r, Server.Asks x r ∧ x.source ∉ s.server.clients ∧ s.receive x = { s with
        server := { s.server with active := s.server.active ++ [(x.source, r.name)] }
        begun := s.begun + 1
        transfers := s.transfers ++ [s.granted x r] }) ∨
      (¬ ∃ r, Server.Asks x r ∧ x.source ∉ s.server.clients) ∧ s.receive x = s := by
  by_cases hgrant : ∃ r, Server.Asks x r ∧ x.source ∉ s.server.clients
  · obtain ⟨r, hasks, hfree⟩ := hgrant
    exact Or.inl ⟨r, hasks, hfree, receive_granted hasks hfree⟩
  · exact Or.inr ⟨hgrant, receive_passed hgrant⟩

theorem receive_same (s : Site) (x : Arrival) :
    (s.receive x).host = s.host ∧ (s.receive x).now = s.now ∧ s.begun ≤ (s.receive x).begun := by
  rcases receive_cases s x with ⟨r, -, -, heq⟩ | ⟨-, heq⟩
  · rw [heq]
    exact ⟨rfl, rfl, Nat.le_succ _⟩
  · rw [heq]
    exact ⟨rfl, rfl, Nat.le_refl _⟩

/-- A transfer that starts belongs to the client that asked. -/
theorem Orderly.receive (h : s.Orderly owner) (x : Arrival) : ∃ owner',
    (s.receive x).Orderly owner' ∧ ∀ n < s.begun, owner' n = owner n := by
  rcases receive_cases s x with ⟨r, hasks, hfree, heq⟩ | ⟨-, heq⟩
  · rw [heq]
    refine ⟨fun n => if n = s.begun then x.source else owner n, ?_, fun n hn =>
      if_neg (Nat.ne_of_lt hn)⟩
    constructor
    · exact h.idle
    · exact h.fresh
    · show (s.server.active ++ [_]).map _ = (s.transfers ++ [_]).map _
      rw [List.map_append, List.map_append]
      exact congrArg (· ++ [x.source]) h.listed
    · rw [List.map_append]
      refine List.nodup_append.mpr ⟨h.once, List.nodup_cons.mpr ⟨nofun, .nil⟩, ?_⟩
      intro client hclient client' hclient' hsame
      rw [← h.listed, hsame, List.mem_singleton.mp hclient'] at hclient
      exact hfree hclient
    · intro t ht
      rcases List.mem_append.mp ht with ht | ht
      · obtain ⟨n, hn, haddress, howner⟩ := h.owned t ht
        exact ⟨n, Nat.lt_succ_of_lt hn, haddress, by rw [if_neg (Nat.ne_of_lt hn)]; exact howner⟩
      · cases List.mem_singleton.mp ht
        exact ⟨s.begun, Nat.lt_succ_self _, rfl, (if_pos rfl).symm⟩
    · intro t ht
      rcases List.mem_append.mp ht with ht | ht
      · exact h.ready t ht
      · cases List.mem_singleton.mp ht
        exact ⟨Station.ready_start _ _ _ _, rfl⟩
  · rw [heq]
    exact ⟨owner, h, fun n _ => rfl⟩

theorem transferOf_append (s : Site) (t : Transfer) (client : Address) :
    ({ s with transfers := s.transfers ++ [t] } : Site).transferOf client =
      (s.transferOf client).or (if t.client = client then some t else none) := by
  show List.find? _ (s.transfers ++ [t]) = _
  rw [List.find?_append, find?_key_cons]
  rfl

/-- A datagram of another client starts nothing for a client. -/
theorem transferOf_receive_of_ne (hne : x.source ≠ client) :
    (s.receive x).transferOf client = s.transferOf client := by
  rcases receive_cases s x with ⟨r, -, -, heq⟩ | ⟨-, heq⟩
  · rw [heq]
    show ({ s with transfers := s.transfers ++ [s.granted x r] } : Site).transferOf client = _
    rw [transferOf_append, if_neg (show (s.granted x r).client ≠ client from hne), Option.or_none]
  · rw [heq]

/-- What a datagram makes of the transfer that it is addressed to. -/
def addressed (address : Address) (x : Arrival) (t : Transfer) : Transfer :=
  if t.address = address then { t with station := t.station.enqueue [x] } else t

theorem addressed_same (address : Address) (x : Arrival) (t : Transfer) :
    (addressed address x t).client = t.client ∧ (addressed address x t).address = t.address := by
  unfold addressed
  split <;> exact ⟨rfl, rfl⟩

theorem Orderly.forward (h : s.Orderly owner) (address : Address) (x : Arrival) :
    (s.forward address x).Orderly owner := by
  have hmem : ∀ t' ∈ (s.forward address x).transfers, ∃ t ∈ s.transfers,
      addressed address x t = t' := fun t' ht' => List.mem_map.mp ht'
  have hclients : (s.forward address x).transfers.map (·.client) = s.transfers.map (·.client) := by
    show (s.transfers.map (addressed address x)).map _ = _
    rw [List.map_map]
    exact List.map_congr_left fun t _ => (addressed_same address x t).1
  refine ⟨h.idle, h.fresh, h.listed.trans hclients.symm, hclients ▸ h.once, fun t' ht' => ?_, fun t' ht' => ?_⟩
  · obtain ⟨t, ht, rfl⟩ := hmem t' ht'
    rw [(addressed_same address x t).1, (addressed_same address x t).2]
    exact h.owned t ht
  · obtain ⟨t, ht, rfl⟩ := hmem t' ht'
    obtain ⟨hready, hclient⟩ := h.ready t ht
    unfold addressed
    split
    · exact ⟨hready.enqueue x, hclient⟩
    · exact ⟨hready, hclient⟩

theorem transferOf_forward (address : Address) (x : Arrival) (client : Address) :
    (s.forward address x).transferOf client = (s.transferOf client).map (addressed address x) := by
  show List.find? _ (s.transfers.map (addressed address x)) = _
  rw [List.find?_map]
  congr 2
  funext t
  show decide ((addressed address x t).client = client) = _
  rw [(addressed_same address x t).1]

end Site

end Scenario

end SelectiveReject
