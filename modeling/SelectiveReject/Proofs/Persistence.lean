import Mathlib.Logic.Relation
import SelectiveReject.Proofs.Progress

/-!
# A client and a transfer are never stuck

Take a client that takes data and a transfer that waits for it with tries left, whatever has happened to their
datagrams before.  When from there on nothing is lost or damaged, every run comes to an end: both have ended well
and the file is complete, or the transfer has given the client up (`never_stuck`).

```
tries left beyond the wait, prompt datagrams     both end well
otherwise                                        both end well, or the transfer gives up
```

It does give up, although nothing is lost any more, when the try left is the last one, and when each answer to
what it sends again arrives before its next wait begins: an answer sets its tries back only if it ends a wait
(`given_up_in_calm`).
-/

namespace SelectiveReject

/-- The client takes data. -/
def Download.Receiving (d : Download) : Prop := ∃ s, d.stage = .receiving s

instance (d : Download) : Decidable d.Receiving :=
  match h : d.stage with
  | .receiving s => .isTrue ⟨s, h⟩
  | .asking | .asked | .handshake | .answered _ | .silent _ | .complete _ =>
      .isFalse fun ⟨s, hs⟩ => by
        rw [h] at hs
        cases hs

namespace Upload

/-- The upload waits for the window to open or for the end to be confirmed, or reads what has arrived before
such a wait; and it has begun fewer waits than it may. -/
def Waits : Upload → Prop
  | .serving s (.waiting _) | .serving s (.listening .room) | .serving s (.listening .farewell) =>
      s.retry.count < s.retry.maxTries ∧ s.retry.maxTries < limit32
  | _ => False

/-- A try is left beyond the wait that the upload is in, or is about to begin. -/
def Spares : Upload → Prop
  | .serving s (.waiting _) => s.retry.count < s.retry.maxTries
  | .serving s (.listening _) => s.retry.count + 1 < s.retry.maxTries
  | _ => False

instance (u : Upload) : Decidable u.Waits :=
  match u with
  | .serving s (.waiting _) | .serving s (.listening .room) | .serving s (.listening .farewell) =>
      inferInstanceAs (Decidable (s.retry.count < s.retry.maxTries ∧ s.retry.maxTries < limit32))
  | .serving _ .sending | .serving _ (.listening .more) | .serving _ (.overdue _) | .serving _ .done
  | .opening _ _ _ _ | .refused _ _ => .isFalse id

instance (u : Upload) : Decidable u.Spares :=
  match u with
  | .serving s (.waiting _) => inferInstanceAs (Decidable (s.retry.count < s.retry.maxTries))
  | .serving s (.listening _) => inferInstanceAs (Decidable (s.retry.count + 1 < s.retry.maxTries))
  | .serving _ .sending | .serving _ (.overdue _) | .serving _ .done
  | .opening _ _ _ _ | .refused _ _ => .isFalse id

theorem Waits.cases {u : Upload} (h : u.Waits) : ∃ s activity, u = .serving s activity ∧
    (∃ goal, activity = .waiting goal ∨ activity = .listening goal) ∧
    s.retry.count < s.retry.maxTries ∧ s.retry.maxTries < limit32 := by
  unfold Waits at h
  split at h
  · exact ⟨_, _, rfl, ⟨_, Or.inl rfl⟩, h⟩
  · exact ⟨_, _, rfl, ⟨_, Or.inr rfl⟩, h⟩
  · exact ⟨_, _, rfl, ⟨_, Or.inr rfl⟩, h⟩
  · exact h.elim

end Upload

namespace Scenario

namespace Network

variable {a : Addresses} {j : Job} {n n' : Network} {t : Transfer} {s : Serving}
  {activity : Activity} {may : Network → Nat → Prop}

/-! ## What every run comes to -/

/-- Some client and transfer are linked, this is how far they are from their end, and the transfer is assured of
a try, if this is asked. -/
def LinkedAt (a : Addresses) (j : Job) (assured : Prop) (m : Nat × Nat × Nat × Nat) (n : Network) :
    Prop :=
  ∃ t s activity, Linked a j n t s activity ∧ m = distance a j n t s activity ∧
    (assured → (talk a n t s activity).Assured t.station.queue)

/-- From a linked network every run comes to an end, in which the transfer has given up or the file is complete;
and if datagrams are prompt, a transfer that is assured of a try does not give up. -/
theorem Linked.inevitable {assured : Prop} (h : Linked a j n t s activity)
    (hassured : assured → (talk a n t s activity).Assured t.station.queue)
    (hmay : ∀ n t, n.site.transfers = [t] → may n 0 ∨ t.station.machine.Late)
    (hprompt : assured → ∀ n index, may n index → n.Prompt index) :
    Inevitable (Calm a may) (fun n => n.Arrived j.file ∨ ¬ assured ∧ n.GaveUp) n := by
  refine Inevitable.of_decreasing (LinkedAt a j assured) ?_ _ n ⟨t, s, activity, h, rfl, hassured⟩
  rintro _ n ⟨t, s, activity, hlinked, rfl, hassured⟩
  rcases hlinked.arrived_or_goes (hmay n t hlinked.transfers) with harrived | hgoes
  · exact Or.inl (Or.inl harrived)
  · refine Or.inr ⟨hgoes, fun n' hstep => ?_⟩
    rcases hlinked.calm_step hstep with ⟨hgave, hnot⟩ | ⟨t', s', activity', hnearing⟩
    · exact Or.inl (Or.inr ⟨hnot ∘ hassured, hgave⟩)
    · exact Or.inr ⟨_, hnearing.nearer, t', s', activity', hnearing.linked, rfl,
        fun h => hnearing.assured (hprompt h n) (hassured h)⟩

/-- The first datagram is prompt, unless it is for a transfer that is late. -/
theorem prompt_zero_or_late (ht : n.site.transfers = [t]) :
    n.Prompt 0 ∨ t.station.machine.Late := by
  by_cases hlate : t.station.machine.Late
  · exact Or.inr hlate
  · refine Or.inl ⟨inOrder_zero, fun d _ t' ht' hlate' => absurd hlate' ?_⟩
    rw [ht, List.mem_singleton] at ht'
    rwa [ht']

/-- From now on nothing that is sent is lost or damaged. -/
def calmed (n : Network) : Network :=
  { n with faults := .disabled, site := { n.site with link := .up, faults := .disabled } }

/-- The client takes data from the only transfer, and the transfer waits with tries left. -/
structure Waits (n : Network) (t : Transfer) : Prop where
  transfers : n.site.transfers = [t]
  transfer : t.station.machine.Waits
  running : t.station.ended = false
  client : n.client.machine.Receiving
  clientRunning : n.client.ended = false
  peer : n.client.machine.peer = t.address

/-- Such a client and such a transfer are linked when faults end. -/
theorem linked_calmed (hsound : n.Sound a j) (h : n.Waits t) :
    ∃ s activity, Linked a j n.calmed t s activity ∧ (t.station.machine.Spares →
      (talk a n.calmed t s activity).Assured t.station.queue) := by
  have hupload := (hsound.transfers t (by simp [h.transfers])).upload
  obtain ⟨s, activity, hmachine, hactivity, hless, hword⟩ := h.transfer.cases
  obtain ⟨session, hreceiving⟩ := h.client
  rw [hmachine] at hupload
  have hdoing := hupload.doing
  have hnone : ∀ {σ : Type} {station : Station σ}, station.ended = false →
      station.result = none := by
    intro σ station hended
    unfold Station.ended at hended
    simpa using hended
  refine ⟨s, activity, ⟨⟨hsound.file, hsound.assigned, hsound.client, hsound.clientEnded, hsound.queue,
    hsound.transfers, hsound.inbox, hsound.wire⟩, rfl, FaultModel.disabled_idle,
    FaultModel.disabled_idle, h.transfers, hmachine,
    ⟨h.peer, Or.inl ⟨session, hreceiving⟩, ⟨Nat.le_of_lt hless, hword⟩, ?_⟩,
    Or.inl (hnone h.clientRunning), Or.inl (hnone h.running)⟩, fun hspares => ?_⟩
  · rintro ⟨s', hs'⟩
    change n.client.machine.stage = .complete s' at hs'
    rw [hreceiving] at hs'
    cases hs'
  · rw [hmachine] at hspares
    obtain ⟨goal, rfl | rfl⟩ := hactivity
    · have hcount : 1 ≤ s.retry.count := by
        cases goal with
        | more => exact hdoing.elim
        | room => exact hdoing.2.2
        | farewell => exact hdoing.2
      exact ⟨show 2 ≤ s.retry.maxTries by omega, Or.inl hless⟩
    · have hspare : s.retry.count + 1 < s.retry.maxTries := hspares
      exact ⟨show 2 ≤ s.retry.maxTries by omega, Or.inl hspare⟩

/-- **A client and a transfer are never stuck.**  Take any state that the network can be in, in which the
client takes data from the only transfer, and the transfer waits with tries left.  If every datagram arrives from
there on, in order and as it was sent, and a wait of the transfer is over only when nothing else can happen, then
every run comes to an end after finitely many steps: both sides have ended well and the file is complete, or the
transfer has used up its tries and given the client up.  If the transfer has a try left beyond its wait, and no
datagram reaches it between a wait that is over and the next, then both end well. -/
theorem never_stuck (s : Setup) (h : s.Reaches n) (hwaits : n.Waits t) :
    Inevitable (Calm s.addresses InOrder) (fun n => n.Arrived s.file ∨ n.GaveUp) n.calmed ∧
      (t.station.machine.Spares →
        Inevitable (Calm s.addresses Prompt) (Arrived s.file) n.calmed) := by
  obtain ⟨sender, activity, hlinked, hassured⟩ := linked_calmed (sound_of_reaches h) hwaits
  constructor
  · refine (@Linked.inevitable _ _ _ _ _ _ InOrder False hlinked False.elim ?_ False.elim).mono ?_
    · exact fun n t _ => Or.inl inOrder_zero
    · exact fun n h => h.imp_right And.right
  · intro hspares
    refine (@Linked.inevitable _ _ _ _ _ _ Prompt True hlinked (fun _ => hassured hspares) ?_ ?_).mono
      ?_
    · exact fun n t ht => prompt_zero_or_late ht
    · exact fun _ n index h => h
    · exact fun n h => h.resolve_right fun h => h.1 trivial

/-- A run shows that a state can be reached in which the transfer waits. -/
theorem waits_of_run {s : Setup} {events : List Event} {check : Network → Transfer → Bool}
    (h : (s.start.run s.addresses events).any (fun n => n.site.transfers.length = 1 ∧
      n.client.machine.Receiving ∧ n.client.ended = false ∧ ∀ t ∈ n.site.transfers,
        t.station.machine.Waits ∧ t.station.ended = false ∧ n.client.machine.peer = t.address ∧
          check n t = true) = true) :
    ∃ n t, s.Reaches n ∧ n.Waits t ∧ check n t = true := by
  obtain ⟨n, hrun, hn⟩ := (Option.any_eq_true _ _).mp h
  obtain ⟨hlength, hclient, hclientRunning, htransfers⟩ := of_decide_eq_true hn
  obtain ⟨t, ht⟩ := List.length_eq_one_iff.mp hlength
  obtain ⟨htransfer, hrunning, hpeer, hcheck⟩ := htransfers t (by simp [ht])
  exact ⟨n, t, reaches_of_run .refl hrun,
    ⟨ht, htransfer, hrunning, hclient, hclientRunning, hpeer⟩, hcheck⟩

/-- Where the letter stalls, it is not stuck. -/
theorem letter_not_stuck : ∃ n t, Setup.letter.Reaches n ∧ n.Waits t ∧ t.station.machine.Spares ∧
    Inevitable (Calm Setup.letter.addresses InOrder)
      (fun n => n.Arrived Setup.letter.file ∨ n.GaveUp) n.calmed ∧
    Inevitable (Calm Setup.letter.addresses Prompt) (Arrived Setup.letter.file) n.calmed := by
  obtain ⟨n, t, hreaches, hwaits, hspares⟩ := @waits_of_run Setup.letter Setup.letterStalls
    (fun _ t => t.station.machine.Spares) (by decide +kernel)
  obtain ⟨hends, harrives⟩ := never_stuck _ hreaches hwaits
  exact ⟨n, t, hreaches, hwaits, of_decide_eq_true hspares, hends,
    harrives (of_decide_eq_true hspares)⟩

/-! ## A client that is given up -/

/-- The only transfer has ended like this. -/
def Concluded (n : Network) (result : Except Stop Statistics) : Prop :=
  ∃ t, n.site.transfers = [t] ∧ t.station.result = some result

/-- What has ended stays as it is. -/
theorem Concluded.step {result : Except Stop Statistics} (h : n.Concluded result)
    (hstep : Calm a may n n') : n'.Concluded result := by
  obtain ⟨t, ht, hresult⟩ := h
  have hended : t.station.ended = true := by
    rw [Station.ended, hresult]
    rfl
  obtain ⟨event, hmay, hact⟩ := hstep
  cases event with
  | client =>
      obtain ⟨moved, -, rfl⟩ := Option.map_eq_some_iff.mp hact
      exact ⟨t, ht, hresult⟩
  | transfer index =>
      obtain ⟨t', moved, ht', hadvance, -⟩ := stepTransfer_cases hact
      obtain ⟨rfl, rfl⟩ := index_of_single ht ht'
      simp [Station.advance, hended] at hadvance
  | transferTimer index =>
      obtain ⟨t', ht', hrunning, -⟩ := expireTransfer_cases hact
      obtain ⟨rfl, rfl⟩ := index_of_single ht ht'
      rw [hended] at hrunning
      cases hrunning
  | deliver index =>
      obtain ⟨d, -, rfl⟩ := Option.map_eq_some_iff.mp hact
      rcases @arrive_single a { n with wire := n.wire.eraseIdx index } t ht d with
        ⟨-, harrive⟩ | ⟨-, -, harrive⟩ | ⟨-, -, harrive⟩ | ⟨-, -, harrive⟩ <;> rw [harrive]
      · exact ⟨t, ht, hresult⟩
      · exact ⟨t, ht, hresult⟩
      · exact ⟨_, rfl, hresult⟩
      · exact ⟨t, ht, hresult⟩
  | request => exact hmay.elim
  | clientTimer => exact hmay.elim
  | lose index => exact hmay.elim
  | duplicate index => exact hmay.elim
  | damage index bit => exact hmay.elim

theorem Concluded.steps {result : Except Stop Statistics} (h : n.Concluded result)
    (hsteps : Relation.ReflTransGen (Calm a may) n n') : n'.Concluded result := by
  induction hsteps with
  | refl => exact h
  | tail _ hstep ih => exact ih.step hstep

/-- Where a run leads to a transfer that has given up, a good end is not inevitable. -/
theorem not_inevitable_of_steps {file : Bytes} {e : Stop}
    (hsteps : Relation.ReflTransGen (Calm a may) n n') (h : n'.Concluded (.error e)) :
    ¬ Inevitable (Calm a may) (Arrived file) n := by
  intro hinevitable
  induction hinevitable generalizing n' with
  | now harrived =>
      obtain ⟨t, r, ht, hr⟩ := harrived.transfer
      obtain ⟨t', ht', hr'⟩ := Concluded.steps ⟨t, ht, hr⟩ hsteps
      obtain ⟨t₁, ht₁, he⟩ := h
      rw [ht'] at ht₁
      cases ht₁
      rw [hr'] at he
      cases he
  | later hgoes _ ih =>
      rcases Relation.ReflTransGen.cases_head hsteps with rfl | ⟨next, hstep, hrest⟩
      · obtain ⟨next, hstep⟩ := hgoes
        exact ih next hstep .refl (h.step hstep)
      · exact ih next hstep hrest h

instance (n : Network) : Decidable n.Quiet := inferInstanceAs (Decidable (_ ∧ _))

instance (n : Network) (event : Event) [∀ index, Decidable (may n index)] :
    Decidable (n.Tolerates may event) :=
  match event with
  | .client | .transfer _ => .isTrue trivial
  | .deliver index => inferInstanceAs (Decidable (may n index))
  | .transferTimer _ => inferInstanceAs (Decidable n.Quiet)
  | .request | .clientTimer | .lose _ | .duplicate _ | .damage _ _ => .isFalse id

/-- Lets one event happen after the other, as long as each is tolerated. -/
def follow (a : Addresses) (may : Network → Nat → Prop) [∀ n index, Decidable (may n index)]
    (n : Network) : List Event → Option Network
  | [] => some n
  | event :: rest =>
      if n.Tolerates may event then (n.act a event).bind fun n => n.follow a may rest else none

theorem steps_of_follow [∀ n index, Decidable (may n index)] {events : List Event}
    {may' : Network → Nat → Prop} (hmay : ∀ n index, may n index → may' n index)
    (h : n.follow a may events = some n') : Relation.ReflTransGen (Calm a may') n n' := by
  induction events generalizing n with
  | nil =>
      rw [follow, Option.some.injEq] at h
      rw [h]
  | cons event rest ih =>
      rw [follow] at h
      split at h
      · rename_i htolerates
        obtain ⟨next, hact, hrest⟩ := Option.bind_eq_some_iff.mp h
        refine .head ⟨event, ?_, hact⟩ (ih hrest)
        cases event with
        | deliver index => exact hmay n index htolerates
        | client | clientTimer | request | transfer | transferTimer | lose | duplicate | damage =>
            exact htolerates
      · cases h

/-- The only transfer has failed. -/
def Fails (n : Network) : Bool :=
  match n.site.transfers with
  | [t] => t.station.result.any fun result => !result.isOk
  | _ => false

theorem concluded_of_fails (h : n.Fails = true) : ∃ e, n.Concluded (.error e) := by
  unfold Fails at h
  split at h
  · rename_i t ht
    obtain ⟨result, hresult, hbad⟩ := (Option.any_eq_true _ _).mp h
    cases result with
    | error e => exact ⟨e, t, ht, hresult⟩
    | ok r => cases hbad
  · cases h

end Network

/-- A client that asks for 500 bytes in pieces of 400; the server waits twice for it. -/
def Setup.brief : Setup where
  addresses := Setup.letter.addresses
  config := {}
  fetch := { name := "letter", parameters := ⟨4, 400⟩ }
  site := .start .up { config := { maxTries := 2 } } fun _ => .contents (List.replicate 500 65)
  file := List.replicate 500 65
  faults := .ofConfig {}
  download := {
    config := {}
    fetch := { name := "letter", parameters := ⟨4, 400⟩ }
    request := ⟨⟨4, 400⟩, "letter"⟩
    server := ⟨"server", 0⟩
    peer := ⟨"server", 0⟩
    retry := ⟨0, 10⟩ }
  started := rfl
  assigned := rfl
  offered := rfl
  short := by decide +kernel
  fresh := rfl

/-- Both pieces and the end are lost, and the transfer begins its first wait. -/
def Setup.briefStalls : List Event :=
  [.client, .client, .deliver 0, .request, .transfer 0, .deliver 0, .client, .client, .transfer 0,
    .lose 0, .transfer 0, .transfer 0, .lose 0, .transfer 0, .transfer 0, .lose 0, .transfer 0]

namespace Network

/-- **Tries that are left may not be enough.**  A transfer that has begun one wait of two is given answers to
everything it sends again, and still gives the client up: each answer arrives before its next wait begins.  It
also gives up, whatever may arrive, when only the wait that it is about to begin is left. -/
theorem given_up_in_calm :
    (∃ n t, Setup.brief.Reaches n ∧ n.Waits t ∧ t.station.machine.Spares ∧
      ¬ Inevitable (Calm Setup.brief.addresses InOrder) (Arrived Setup.brief.file) n.calmed) ∧
    ∃ n t, Setup.brief.Reaches n ∧ n.Waits t ∧ ∀ may,
      ¬ Inevitable (Calm Setup.brief.addresses may) (Arrived Setup.brief.file) n.calmed := by
  constructor
  · -- twice the wait is over, and the answer is read before the next one
    let answered : List Event := [.transferTimer 0, .transfer 0, .deliver 0, .client, .deliver 0,
      .transfer 0, .transfer 0]
    obtain ⟨n, t, hreaches, hwaits, hcheck⟩ := @waits_of_run Setup.brief Setup.briefStalls
      (fun n t => t.station.machine.Spares ∧ (n.calmed.follow Setup.brief.addresses
        (fun _ index => index = 0) (answered ++ answered)).any Fails = true) (by decide +kernel)
    obtain ⟨hspares, hfails⟩ := of_decide_eq_true hcheck
    obtain ⟨n', hfollow, hbad⟩ := (Option.any_eq_true _ _).mp hfails
    obtain ⟨e, hconcluded⟩ := concluded_of_fails hbad
    refine ⟨n, t, hreaches, hwaits, hspares, not_inevitable_of_steps
      (steps_of_follow ?_ hfollow) hconcluded⟩
    rintro n _ rfl
    exact inOrder_zero
  · -- what was sent again is lost, too, and the last wait begins
    obtain ⟨n, t, hreaches, hwaits, hcheck⟩ := @waits_of_run Setup.brief
      (Setup.briefStalls ++ [.transferTimer 0, .transfer 0, .lose 0])
      (fun n t => (n.calmed.follow Setup.brief.addresses (fun _ _ => False)
        [.transfer 0, .transferTimer 0, .transfer 0, .transfer 0]).any Fails) (by decide +kernel)
    obtain ⟨n', hfollow, hbad⟩ := (Option.any_eq_true _ _).mp hcheck
    obtain ⟨e, hconcluded⟩ := concluded_of_fails hbad
    exact ⟨n, t, hreaches, hwaits, fun may => not_inevitable_of_steps
      (steps_of_follow (fun _ _ => False.elim) hfollow) hconcluded⟩

end Network

end Scenario

end SelectiveReject
