import SelectiveReject.Proofs.Faults
import SelectiveReject.Scenario.Course

/-!
# What an encounter keeps

A property of a machine and its log that each step and each expired wait keeps holds throughout every
encounter, whatever arrives.  A machine has ended either because its last step says so, or because a
packet could not be sent; and when its packets fit a datagram, it is only the network that can refuse them.
-/

namespace SelectiveReject.Scenario.Encounter

variable {σ : Type} [Machine σ] {link : Link} {e e' : Encounter σ}

/-- The machine has ended as its last step says, or because a packet could not be sent. -/
def Over (e : Encounter σ) (result : Except Stop Statistics) : Prop :=
  (∃ queue last, Machine.step e.station.machine queue = .stop last ∧
      (e.station.finish last).result = some result) ∨
    ∃ stop, result = .error stop ∧ Unsent stop

/-- A machine that has ended well has ended as its last step says; what the channel did is added. -/
theorem Over.ok {t : Statistics} (h : e.Over (.ok t)) : ∃ queue last,
    Machine.step e.station.machine queue = .stop (.ok last) ∧
      t = { last with
        injectedDrops := e.station.channel.dropped
        injectedFlips := e.station.channel.flipped } := by
  rcases h with ⟨queue, last, hstop, hlast⟩ | ⟨stop, hstop, -⟩
  · cases last with
    | error stop => cases hlast
    | ok last =>
        cases hlast
        exact ⟨queue, last, hstop, rfl⟩
  · cases hstop

/-- What a timer is that runs out: the machine has not ended, and its wait is over. -/
theorem act_timer (h : e.act link .timer = some e') :
    e.station.ended = false ∧ e' = { e with station := e.station.expire } := by
  change (if e.station.ended then none else some { e with station := e.station.expire }) = some e' at h
  split at h
  · cases h
  · rename_i hended
    cases h
    exact ⟨Bool.eq_false_iff.mpr hended, rfl⟩

/-- What a step is: an end, or a move and the sending of what it says. -/
theorem act_step (h : e.act link .step = some e') :
    e.station.ended = false ∧
      ((∃ last, Machine.step e.station.machine e.station.queue = .stop last ∧
          e'.station = e.station.finish last ∧ e'.faults = e.faults ∧ e'.log = e.log) ∨
        ∃ sent channel, Machine.step e.station.machine e.station.queue =
            .next e'.station.machine e'.station.queue sent ∧
          channel.peer = Machine.peer e'.station.machine ∧
          e'.log = e.log ++ deeds e.station.queue e'.station.queue sent ∧
          e'.faults = (Channel.sendAll channel link e.faults sent).2.2.1 ∧
          ∀ result, e'.station.result = some result →
            ∃ stop, result = .error stop ∧ (channel.sendAll link e.faults sent).1 = .error stop) := by
  obtain ⟨⟨station, faults, left⟩, hadvance, rfl⟩ := Option.map_eq_some_iff.mp h
  obtain ⟨hended, ⟨last, hstop, hstation, hsame, -⟩ | ⟨sent, channel, hstep, hpeer, hafter, -, hfailed⟩⟩ :=
    Station.advance_cases hadvance
  · exact ⟨hended, Or.inl ⟨last, hstop, hstation, hsame, by simp [next, hstop]⟩⟩
  · exact ⟨hended, Or.inr ⟨sent, channel, hstep, hpeer, by simp [next, hstep], hafter, hfailed⟩⟩

/-- What a step is that does not end the machine: a move, and what it says is sent. -/
theorem act_running (h : e.act link .step = some e') (hrunning : e'.station.result = none) :
    ∃ sent, Machine.step e.station.machine e.station.queue =
        .next e'.station.machine e'.station.queue sent ∧
      Channel.sendAll { e.station.channel with peer := Machine.peer e'.station.machine } link e.faults sent =
        (.ok (), e'.station.channel, e'.faults, e.leaving link .step) ∧
      e'.log = e.log ++ deeds e.station.queue e'.station.queue sent := by
  obtain ⟨⟨station, faults, left⟩, hadvance, rfl⟩ := Option.map_eq_some_iff.mp h
  have hleaving : e.leaving link .step = left := by
    rw [leaving, hadvance]
    rfl
  unfold Station.advance at hadvance
  split at hadvance
  · cases hadvance
  · split at hadvance
    · cases hadvance
    · cases hadvance
      cases hrunning
    · rename_i machine queue sent hstep
      split at hadvance
      · cases hadvance
        cases hrunning
      · rename_i hsend
        cases hadvance
        rw [hleaving]
        exact ⟨sent, hstep, hsend, by simp [next, hstep]⟩

/-- A machine that runs has sent packets that fit a datagram, and if it has sent any, its faults can be
drawn. -/
theorem sent_of_running {machine : σ} {faults : FaultModel}
    (h : Reaches link (start machine faults) e) (hrunning : e.station.result = none) :
    (∀ p, .sent p ∈ e.log → p.payload.length ≤ Packet.maxPayload) ∧
      ∀ p, .sent p ∈ e.log → e.faults.Sure := by
  induction h with
  | refl => exact ⟨nofun, nofun⟩
  | @step now next incident _ hact ih =>
      cases incident with
      | arrival datagram =>
          cases hact
          exact ih hrunning
      | timer =>
          obtain ⟨-, rfl⟩ := act_timer hact
          exact ih hrunning
      | step =>
          have hbefore : now.station.result = none := by
            have hended := (act_step hact).1
            rwa [Station.ended, Option.isSome_eq_false_iff, Option.isNone_iff_eq_none] at hended
          obtain ⟨hfits, hsure⟩ := ih hbefore
          obtain ⟨sent, -, hsend, hlog⟩ := act_running hact hrunning
          have hcarried := Channel.sendAll_carried hsend
          have hrate : now.faults.Sure → next.faults.Sure := by
            unfold FaultModel.Sure
            rw [hcarried.rate]
            exact id
          have hcases : ∀ p, .sent p ∈ next.log → .sent p ∈ now.log ∨ p ∈ sent := by
            intro p hp
            rwa [hlog, List.mem_append, sent_mem_deeds] at hp
          refine ⟨fun p hp => (hcases p hp).elim (hfits p) (hcarried.fits p), fun p hp => hrate ?_⟩
          exact (hcases p hp).elim (hsure p) fun hmem => hcarried.sure (List.ne_nil_of_mem hmem)

/-- What holds at first, and is kept by each step and each expired wait, holds throughout. -/
theorem upholds (Inv : σ → List Deed → Prop) {machine : σ} {faults : FaultModel}
    (hstart : Inv machine [])
    (hexpire : ∀ m log, Inv m log → Inv (Machine.expire m) log)
    (hnext : ∀ m log queue m' queue' sent, Inv m log →
      Machine.step m queue = .next m' queue' sent → Inv m' (log ++ deeds queue queue' sent))
    (h : Reaches link (start machine faults) e) :
    Inv e.station.machine e.log ∧ ∀ result, e.station.result = some result → e.Over result := by
  induction h with
  | refl => exact ⟨hstart, fun result hresult => by cases hresult⟩
  | @step now next incident _ hact ih =>
      obtain ⟨hinv, hover⟩ := ih
      cases incident with
      | arrival datagram =>
          cases hact
          exact ⟨hinv, hover⟩
      | timer =>
          obtain ⟨hended, rfl⟩ := act_timer hact
          refine ⟨hexpire _ _ hinv, fun result hresult => ?_⟩
          rw [Station.ended, show now.station.result = some result from hresult] at hended
          cases hended
      | step =>
          obtain ⟨-, ⟨last, hstep, hstation, -, hlog⟩ | ⟨sent, channel, hstep, -, hlog, -, hfailed⟩⟩ :=
            act_step hact
          · rw [hlog]
            rw [hstation]
            exact ⟨hinv, fun result hresult => Or.inl ⟨now.station.queue, last, hstation ▸ hstep,
              hstation ▸ hresult⟩⟩
          · rw [hlog]
            refine ⟨hnext _ _ _ _ _ _ hinv hstep, fun result hresult => Or.inr ?_⟩
            obtain ⟨stop, hstop, hsend⟩ := hfailed result hresult
            exact ⟨stop, hstop, Channel.sendAll_unsent hsend⟩

/-- The machine has ended as its last step says, on what had arrived until then, or because the network
does not take what it sends. -/
def Closed (link : Link) (e : Encounter σ) (result : Except Stop Statistics) : Prop :=
  (∃ queue more last, e.station.queue = queue ++ more ∧
      Machine.step e.station.machine queue = .stop last ∧
      (e.station.finish last).result = some result) ∨
    ∃ stop, link.Refuses (Machine.peer e.station.machine) stop ∧ result = .error stop

/-- A machine whose packets fit a datagram ends as its last step says, unless the network refuses, when
its faults have a rate below one. -/
theorem withstands (Inv : σ → List Deed → Prop) {machine : σ} {faults : FaultModel}
    (hproper : faults.Proper) (hstart : Inv machine [])
    (hexpire : ∀ m log, Inv m log → Inv (Machine.expire m) log)
    (hnext : ∀ m log queue m' queue' sent, Inv m log →
      Machine.step m queue = .next m' queue' sent → Inv m' (log ++ deeds queue queue' sent))
    (hshort : ∀ m log queue m' queue' sent, Inv m log →
      Machine.step m queue = .next m' queue' sent → ∀ p ∈ sent, p.payload.length ≤ Packet.maxPayload)
    (h : Reaches link (start machine faults) e) :
    Inv e.station.machine e.log ∧ ∀ result, e.station.result = some result → e.Closed link result := by
  refine ⟨(upholds Inv hstart hexpire hnext h).1, ?_⟩
  suffices hboth : e.faults.Proper ∧
      ∀ result, e.station.result = some result → e.Closed link result from hboth.2
  induction h with
  | refl => exact ⟨hproper, nofun⟩
  | @step now next incident hreach hact ih =>
      obtain ⟨hfaults, hclosed⟩ := ih
      cases incident with
      | arrival datagram =>
          cases hact
          refine ⟨hfaults, fun result hresult => (hclosed result hresult).imp_left ?_⟩
          rintro ⟨queue, more, last, hqueue, hstop⟩
          refine ⟨queue, more ++ [datagram], last, ?_, hstop⟩
          rw [← List.append_assoc, ← hqueue]
          rfl
      | timer =>
          obtain ⟨hended, rfl⟩ := act_timer hact
          refine ⟨hfaults, fun result hresult => ?_⟩
          rw [Station.ended, show now.station.result = some result from hresult] at hended
          cases hended
      | step =>
          obtain ⟨-, ⟨last, hstop, hstation, hsame, -⟩ | ⟨sent, channel, hstep, hpeer, -, hafter, hfailed⟩⟩ :=
            act_step hact
          · refine ⟨hsame ▸ hfaults, fun result hresult => Or.inl ?_⟩
            exact ⟨now.station.queue, [], last, by rw [hstation, List.append_nil]; rfl,
              hstation ▸ hstop, hstation ▸ hresult⟩
          · have hinv := (upholds Inv hstart hexpire hnext hreach).1
            obtain ⟨hfaults', hrefused⟩ := @Channel.sendAll_proper _ channel link _ _ _ hfaults
              (hshort _ _ _ _ _ _ hinv hstep)
            refine ⟨hafter ▸ hfaults', fun result hresult => Or.inr ?_⟩
            obtain ⟨stop, hresult, hsend⟩ := hfailed result hresult
            exact ⟨stop, hpeer ▸ hrefused stop hsend, hresult⟩

end SelectiveReject.Scenario.Encounter
