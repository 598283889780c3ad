import SelectiveReject.Proofs.Incidents
import SelectiveReject.Scenario.Course

/-!
# Machines that are left alone

A machine keeps a `Ritual` when it waits, reminds its peer after a wait without an answer, waits again, and
loses patience in the end.  What such a machine does when nothing arrives any more is settled to the last
step (`Ritual.gives_up`):

```
begins 0 ── step ─→ pauses 0 ── timer ─→ late 0 ── step, reminder ─→ begins 1 ── step ─→ …
begins tries ── step ─→ peerSilent tries
```

Whatever arrives, a machine that counts its waits in vain, and is set back by each datagram, gives its peer up
after so many of them only (`Counts.perseveres`).
-/

namespace SelectiveReject.Scenario.Encounter

/-! ## Single incidents -/

/-- The machine runs, has nothing to read, and its faults can be drawn. -/
structure Idle {σ : Type} (e : Encounter σ) : Prop where
  running : e.station.result = none
  empty : e.station.queue = []
  sure : e.faults.Sure

theorem Idle.ended {σ : Type} {e : Encounter σ} (h : e.Idle) : e.station.ended = false := by
  rw [Station.ended, h.running]
  rfl

variable {σ : Type} [Machine σ] {link : Link} {e now next : Encounter σ} {incidents : List Incident}

variable (link) in
/-- A step whose packets are all sent. -/
theorem act_of_next {m : σ} {queue : List Arrival} {sent : List Packet} {channel : Channel}
    {faults : FaultModel} {left : List Departure} (hended : e.station.ended = false)
    (hstep : Machine.step e.station.machine e.station.queue = .next m queue sent)
    (hsend : Channel.sendAll { e.station.channel with peer := Machine.peer m } link e.faults sent =
      (.ok (), channel, faults, left)) :
    e.act link .step = some ⟨⟨m, channel, queue, e.station.deadline, none⟩, faults,
        e.log ++ deeds e.station.queue queue sent⟩ ∧
      e.leaving link .step = left := by
  have hadvance : e.station.advance link e.faults =
      some (⟨m, channel, queue, e.station.deadline, none⟩, faults, left) := by
    simp only [Station.advance, hended, Bool.false_eq_true, if_false, hstep, hsend]
  have hnext : e.next = deeds e.station.queue queue sent := by simp only [Encounter.next, hstep]
  constructor
  · rw [act, hadvance, hnext]
    rfl
  · rw [leaving, hadvance]
    rfl

variable (link) in
theorem Idle.step_quiet (h : e.Idle) {m : σ}
    (hstep : Machine.step e.station.machine [] = .next m [] []) :
    ∃ next, e.act link .step = some next ∧ next.Idle ∧ next.station.machine = m ∧ next.log = e.log ∧
      e.leaving link .step = [] := by
  obtain ⟨hact, hleaving⟩ := act_of_next link h.ended (by rw [h.empty]; exact hstep) rfl
  refine ⟨_, hact, ⟨rfl, rfl, h.sure⟩, rfl, ?_, hleaving⟩
  rw [h.empty]
  exact List.append_nil _

theorem Idle.step_sends (h : e.Idle) {m : σ} {p : Packet}
    (hstep : Machine.step e.station.machine [] = .next m [] [p])
    (hfits : p.payload.length ≤ Packet.maxPayload) :
    ∃ next, e.act .up .step = some next ∧ next.Idle ∧ next.station.machine = m ∧
      next.log = e.log ++ [.sent p] ∧
      ∀ d ∈ e.leaving .up .step, d.target = Machine.peer m ∧ Frames d.bytes p := by
  obtain ⟨⟨g, hfaults⟩, hrefused⟩ := @Channel.sendAll_sure _
    { e.station.channel with peer := Machine.peer m } .up e.faults _ [p] h.sure
    fun q hq => by rwa [List.mem_singleton.mp hq]
  have hleft := @Channel.sendAll_departure _ { e.station.channel with peer := Machine.peer m } .up e.faults _ [p]
  generalize hsend : Channel.sendAll { e.station.channel with peer := Machine.peer m } .up e.faults [p] =
    sent at hfaults hrefused hleft
  obtain ⟨result, channel, faults, left⟩ := sent
  cases result with
  | error stop => exact absurd (hrefused stop rfl) (Link.not_refuses_up _ stop)
  | ok done =>
      cases hfaults
      obtain ⟨hact, hleaving⟩ := act_of_next .up h.ended (by rw [h.empty]; exact hstep) hsend
      refine ⟨_, hact, ⟨rfl, rfl, h.sure⟩, rfl, ?_, fun d hd => ?_⟩
      · rw [h.empty]
        rfl
      · obtain ⟨htarget, q, hq, hframes⟩ := hleft (hleaving ▸ hd)
        rw [List.mem_singleton] at hq
        exact ⟨htarget, hq ▸ hframes⟩

variable (link) in
theorem Idle.step_stops (h : e.Idle) {stop : Stop}
    (hstep : Machine.step e.station.machine [] = .stop (.error stop)) :
    ∃ next, e.act link .step = some next ∧ next.station.result = some (.error stop) ∧
      next.log = e.log ∧ e.leaving link .step = [] := by
  have hadvance : e.station.advance link e.faults =
      some (e.station.finish (.error stop), e.faults, []) := by
    simp only [Station.advance, h.ended, Bool.false_eq_true, if_false, h.empty, hstep]
  have hnext : e.next = [] := by simp only [Encounter.next, h.empty, hstep]
  refine ⟨_, by rw [act, hadvance]; rfl, rfl, ?_, by rw [leaving, hadvance]; rfl⟩
  rw [hnext]
  exact List.append_nil _

variable (link) in
theorem Idle.timer (h : e.Idle) : ∃ next, e.act link .timer = some next ∧ next.Idle ∧
    next.station.machine = Machine.expire e.station.machine ∧ next.log = e.log := by
  refine ⟨{ e with station := e.station.expire }, ?_, ⟨h.running, h.empty, h.sure⟩, rfl, rfl⟩
  simp only [act, h.ended, Bool.false_eq_true, if_false]

theorem waiting_eq_true_iff (hended : e.station.ended = false) :
    e.waiting = true ↔ Machine.step e.station.machine [] = .wait := by
  unfold waiting
  rw [hended]
  split
  · rename_i hstep
    simp [hstep]
  · rename_i hstep
    simp only [Bool.false_eq_true, false_iff]
    exact hstep

theorem Idle.waiting_iff (h : e.Idle) :
    e.waiting = true ↔ Machine.step e.station.machine [] = .wait :=
  waiting_eq_true_iff h.ended

/-! ## Being left alone -/

/-- A machine that does not wait can only step. -/
theorem LeftAlone.of_step (hwaiting : e.waiting ≠ true) (hact : e.act link .step = some next)
    (h : e.LeftAlone link incidents) (hrun : (e.run link incidents).isSome = true) :
    incidents = [] ∨ ∃ rest, incidents = .step :: rest ∧ next.LeftAlone link rest ∧
      (next.run link rest).isSome = true := by
  cases incidents with
  | nil => exact Or.inl rfl
  | cons incident rest =>
      obtain ⟨hquiet, hrest⟩ := h
      cases incident with
      | arrival x => exact hquiet.elim
      | timer => exact absurd hquiet hwaiting
      | step =>
          rw [run, hact, Option.bind_some] at hrun
          exact Or.inr ⟨rest, rfl, hrest next hact, hrun⟩

/-- A machine that waits can only have its timer run out. -/
theorem LeftAlone.of_timer (hidle : e.Idle) (hwait : Machine.step e.station.machine [] = .wait)
    (hact : e.act link .timer = some next) (h : e.LeftAlone link incidents)
    (hrun : (e.run link incidents).isSome = true) :
    incidents = [] ∨ ∃ rest, incidents = .timer :: rest ∧ next.LeftAlone link rest ∧
      (next.run link rest).isSome = true := by
  cases incidents with
  | nil => exact Or.inl rfl
  | cons incident rest =>
      obtain ⟨hquiet, hrest⟩ := h
      cases incident with
      | arrival x => exact hquiet.elim
      | step =>
          have hadvance : e.station.advance link e.faults = none := by
            simp only [Station.advance, hidle.ended, Bool.false_eq_true, if_false, hidle.empty, hwait]
          rw [run, act, hadvance] at hrun
          cases hrun
      | timer =>
          rw [run, hact, Option.bind_some] at hrun
          exact Or.inr ⟨rest, rfl, hrest next hact, hrun⟩

/-- With a machine that has ended nothing more happens. -/
theorem LeftAlone.of_ended (hended : e.station.ended = true) (h : e.LeftAlone link incidents)
    (hrun : (e.run link incidents).isSome = true) : incidents = [] := by
  cases incidents with
  | nil => rfl
  | cons incident rest =>
      obtain ⟨hquiet, -⟩ := h
      cases incident with
      | arrival x => exact hquiet.elim
      | step =>
          have hadvance : e.station.advance link e.faults = none := if_pos hended
          rw [run, act, hadvance] at hrun
          cases hrun
      | timer =>
          have hact : e.act link .timer = none := if_pos hended
          rw [run, hact] at hrun
          cases hrun

/-! ## The ritual -/

/-- The machine waits `tries` times in vain, sends `reminder` to `target` after each of these waits, and
gives its peer up right after the last of them; and as long as it is left alone it does nothing else. -/
structure GivesUp (e : Encounter σ) (tries : Nat) (reminder : Packet) (target : Address) : Prop where
  waits : ∀ k ≤ tries, ∃ now, e.run .up (silence k) = some now ∧
    e.waits .up (silence k) = List.replicate k .timeout ∧
    now.log = e.log ++ List.replicate k (.sent reminder) ∧
    (k < tries → now.station.result = none ∧ now.waiting = true) ∧
    (k = tries → now.station.result = some (.error (.error (.peerSilent tries))))
  leaving : ∀ d ∈ e.departures .up (silence tries), d.target = target ∧ Frames d.bytes reminder
  only : ∀ incidents, e.LeftAlone .up incidents → (e.run .up incidents).isSome = true →
    incidents <+: silence tries

/-- What a machine does that waits, reminds its peer and waits again, `tries` times at most: it begins the
wait after `k` reminders, waits, and finds that the wait is over. -/
structure Ritual (tries : Nat) (reminder : Packet) (target : Address) (begins pauses late : Nat → σ → Prop) :
    Prop where
  begin : ∀ k m, begins k m → k < tries → ∃ m', Machine.step m [] = .next m' [] [] ∧ pauses k m'
  wait : ∀ k m, pauses k m → Machine.step m [] = .wait
  expire : ∀ k m, pauses k m → late k (Machine.expire m)
  remind : ∀ k m, late k m → ∃ m', Machine.step m [] = .next m' [] [reminder] ∧
    begins (k + 1) m' ∧ Machine.peer m' = target
  giveUp : ∀ m, begins tries m → Machine.step m [] = .stop (.error (.error (.peerSilent tries)))

variable {tries : Nat} {reminder : Packet} {target : Address} {begins pauses late : Nat → σ → Prop}

/-- Where the ritual stands after `k` reminders: in a wait, or at the end of its patience. -/
def Stands (tries : Nat) (pauses : Nat → σ → Prop) (k : Nat) (e : Encounter σ) : Prop :=
  (k < tries ∧ e.Idle ∧ pauses k e.station.machine) ∨
    (k = tries ∧ e.station.result = some (.error (.error (.peerSilent tries))))

namespace Ritual

theorem not_waiting_begins (hr : Ritual tries reminder target begins pauses late) (h : e.Idle) {k : Nat}
    (hk : k ≤ tries) (hb : begins k e.station.machine) : e.waiting ≠ true := by
  rw [ne_eq, h.waiting_iff]
  intro hwait
  rcases Nat.lt_or_eq_of_le hk with hlt | rfl
  · obtain ⟨m, hstep, -⟩ := hr.begin k _ hb hlt
    rw [hwait] at hstep
    cases hstep
  · rw [hr.giveUp _ hb] at hwait
    cases hwait

theorem not_waiting_late (hr : Ritual tries reminder target begins pauses late) (h : e.Idle) {k : Nat}
    (hl : late k e.station.machine) : e.waiting ≠ true := by
  rw [ne_eq, h.waiting_iff]
  intro hwait
  obtain ⟨m, hstep, -⟩ := hr.remind k _ hl
  rw [hwait] at hstep
  cases hstep

variable (link) in
/-- A wait is begun, or the peer is given up. -/
theorem act_begin (hr : Ritual tries reminder target begins pauses late) (h : e.Idle) {k : Nat}
    (hk : k ≤ tries) (hb : begins k e.station.machine) :
    ∃ next, e.act link .step = some next ∧ next.log = e.log ∧ e.leaving link .step = [] ∧
      Stands tries pauses k next := by
  rcases Nat.lt_or_eq_of_le hk with hlt | rfl
  · obtain ⟨m, hstep, hw⟩ := hr.begin k _ hb hlt
    obtain ⟨next, hact, hidle, rfl, hlog, hleaving⟩ := h.step_quiet link hstep
    exact ⟨next, hact, hlog, hleaving, Or.inl ⟨hlt, hidle, hw⟩⟩
  · obtain ⟨next, hact, hresult, hlog, hleaving⟩ := h.step_stops link (hr.giveUp _ hb)
    exact ⟨next, hact, hlog, hleaving, Or.inr ⟨rfl, hresult⟩⟩

/-- One round of the ritual, from wait to wait. -/
structure Round (e : Encounter σ) (reminder : Packet) (target : Address) (late' begun next : Encounter σ) :
    Prop where
  timer : e.act .up .timer = some late'
  remind : late'.act .up .step = some begun
  begin : begun.act .up .step = some next
  outcome : e.outcome .timer = [.timeout]
  quiet : late'.waiting ≠ true
  quiet' : begun.waiting ≠ true
  log : next.log = e.log ++ [.sent reminder]
  leaving : ∀ d ∈ late'.leaving .up .step, d.target = target ∧ Frames d.bytes reminder
  leaving' : begun.leaving .up .step = []

theorem round (hr : Ritual tries reminder target begins pauses late)
    (hfits : reminder.payload.length ≤ Packet.maxPayload) (h : e.Idle) {k : Nat} (hk : k < tries)
    (hw : pauses k e.station.machine) :
    ∃ late' begun next, Round e reminder target late' begun next ∧ Stands tries pauses (k + 1) next := by
  obtain ⟨late', htimer, hidle, hmachine, hlog⟩ := h.timer .up
  have hl := hr.expire k _ hw
  rw [← hmachine] at hl
  obtain ⟨m, hstep, hb, hpeer⟩ := hr.remind k _ hl
  obtain ⟨begun, hremind, hidle', rfl, hlog', hleaving⟩ := hidle.step_sends hstep hfits
  obtain ⟨next, hbegin, hlog'', hleaving', hstands⟩ := hr.act_begin .up hidle' hk hb
  refine ⟨late', begun, next, ⟨htimer, hremind, hbegin, ?_, hr.not_waiting_late hidle hl,
    hr.not_waiting_begins hidle' hk hb, ?_, fun d hd => hpeer ▸ hleaving d hd, hleaving'⟩, hstands⟩
  · rw [outcome, if_pos (h.waiting_iff.mpr (hr.wait k _ hw))]
  · rw [hlog'', hlog', hlog]

variable {late' begun : Encounter σ}

theorem Round.run (h : Round e reminder target late' begun next) :
    e.run .up [.timer, .step, .step] = some next := by
  simp only [Encounter.run, h.timer, h.remind, h.begin, Option.bind_some]

theorem Round.waits (h : Round e reminder target late' begun next) :
    e.waits .up [.timer, .step, .step] = [.timeout] := by
  simp only [Encounter.waits, along, h.timer, h.remind, h.begin, h.outcome]
  simp only [Encounter.outcome, if_neg h.quiet, if_neg h.quiet', List.append_nil]

theorem Round.departures (h : Round e reminder target late' begun next) :
    ∀ d ∈ e.departures .up [.timer, .step, .step], d.target = target ∧ Frames d.bytes reminder := by
  simp only [Encounter.departures, along, h.timer, h.remind, h.begin, h.leaving', List.append_nil]
  exact h.leaving

/-- What a machine that keeps the ritual has done after `k` rounds. -/
theorem rounds (hr : Ritual tries reminder target begins pauses late)
    (hfits : reminder.payload.length ≤ Packet.maxPayload) (h : e.Idle) (hb : begins 0 e.station.machine)
    (k : Nat) (hk : k ≤ tries) :
    ∃ now, e.run .up (silence k) = some now ∧
      e.waits .up (silence k) = List.replicate k .timeout ∧
      now.log = e.log ++ List.replicate k (.sent reminder) ∧
      (∀ d ∈ e.departures .up (silence k), d.target = target ∧ Frames d.bytes reminder) ∧
      Stands tries pauses k now := by
  induction k with
  | zero =>
      obtain ⟨next, hact, hlog, hleaving, hstands⟩ := hr.act_begin .up h hk hb
      have hquiet := hr.not_waiting_begins h hk hb
      refine ⟨next, ?_, ?_, ?_, ?_, hstands⟩
      · rw [silence, List.replicate_zero, List.flatten_nil, run, hact]
        rfl
      · simp only [silence, List.replicate_zero, List.flatten_nil, Encounter.waits, along, hact, outcome,
          if_neg hquiet, List.append_nil]
      · rw [hlog, List.replicate_zero, List.append_nil]
      · simp [silence, Encounter.departures, along, hact, hleaving]
  | succ k ih =>
      obtain ⟨now, hrun, hwaits, hlog, hleft, hstands⟩ := ih (Nat.le_of_succ_le hk)
      rcases hstands with ⟨hlt, hidle, hw⟩ | ⟨rfl, -⟩
      · obtain ⟨late', begun, next, hround, hstands⟩ := hr.round hfits hidle hlt hw
        refine ⟨next, ?_, ?_, ?_, ?_, hstands⟩
        · rw [silence_succ, run_append hrun, hround.run]
        · have hmore := hround.waits
          unfold Encounter.waits at *
          rw [silence_succ, along_append hrun, hwaits, hmore, List.replicate_succ']
        · rw [hround.log, hlog, List.append_assoc, List.replicate_succ']
        · have hmore := hround.departures
          unfold Encounter.departures at *
          rw [silence_succ, along_append hrun]
          intro d hd
          exact (List.mem_append.mp hd).elim (hleft d) (hmore d)
      · exact absurd hk (Nat.not_succ_le_self _)

/-- A machine that stands in the ritual, and is left alone, goes on with it. -/
theorem only (hr : Ritual tries reminder target begins pauses late)
    (hfits : reminder.payload.length ≤ Packet.maxPayload) (n : Nat) : ∀ {k : Nat} {e : Encounter σ}
    {incidents : List Incident}, k + n = tries → Stands tries pauses k e →
    e.LeftAlone .up incidents → (e.run .up incidents).isSome = true →
    incidents <+: (List.replicate n [Incident.timer, .step, .step]).flatten := by
  induction n with
  | zero =>
      intro k e incidents hk hstands halone hrun
      rcases hstands with ⟨hlt, -⟩ | ⟨-, hresult⟩
      · omega
      · rw [halone.of_ended (by rw [Station.ended, hresult]; rfl) hrun]
        exact List.nil_prefix
  | succ n ih =>
      intro k e incidents hk hstands halone hrun
      rcases hstands with ⟨hlt, hidle, hw⟩ | ⟨heq, -⟩
      · obtain ⟨late', begun, next, hround, hstands⟩ := hr.round hfits hidle hlt hw
        rw [List.replicate_succ, List.flatten_cons]
        rcases halone.of_timer hidle (hr.wait k _ hw) hround.timer hrun with
          rfl | ⟨rest, rfl, halone, hrun⟩
        · exact List.nil_prefix
        rcases halone.of_step hround.quiet hround.remind hrun with rfl | ⟨rest, rfl, halone, hrun⟩
        · exact ⟨_, rfl⟩
        rcases halone.of_step hround.quiet' hround.begin hrun with rfl | ⟨rest, rfl, halone, hrun⟩
        · exact ⟨_, rfl⟩
        · obtain ⟨more, hmore⟩ := ih (by omega) hstands halone hrun
          exact ⟨more, by rw [← hmore]; rfl⟩
      · omega

/-- A machine that keeps the ritual gives its peer up when it is left alone. -/
theorem gives_up (hr : Ritual tries reminder target begins pauses late)
    (hfits : reminder.payload.length ≤ Packet.maxPayload) (h : e.Idle) (hb : begins 0 e.station.machine) :
    e.GivesUp tries reminder target where
  waits k hk := by
    obtain ⟨now, hrun, hwaits, hlog, -, hstands⟩ := hr.rounds hfits h hb k hk
    refine ⟨now, hrun, hwaits, hlog, fun hlt => ?_, fun heq => ?_⟩
    · rcases hstands with ⟨-, hidle, hw⟩ | ⟨heq, -⟩
      · exact ⟨hidle.running, hidle.waiting_iff.mpr (hr.wait k _ hw)⟩
      · omega
    · rcases hstands with ⟨hlt, -⟩ | ⟨-, hresult⟩
      · omega
      · exact hresult
  leaving := by
    obtain ⟨-, -, -, -, hleft, -⟩ := hr.rounds hfits h hb tries (Nat.le_refl _)
    exact hleft
  only incidents halone hrun := by
    obtain ⟨next, hact, -, -, hstands⟩ := hr.act_begin .up h (Nat.zero_le _) hb
    rcases halone.of_step (hr.not_waiting_begins h (Nat.zero_le _) hb) hact hrun with
      rfl | ⟨rest, rfl, halone, hrun⟩
    · exact List.nil_prefix
    · obtain ⟨more, hmore⟩ := hr.only hfits tries (Nat.zero_add _) hstands halone hrun
      exact ⟨more, by rw [silence, ← hmore]; rfl⟩

end Ritual

/-! ## How many waits have timed out -/

/-- The last `count` waits have timed out. -/
def Missed (waits : List Wait) (count : Nat) : Prop :=
  ∃ earlier, waits = earlier ++ List.replicate count .timeout

theorem missed_zero (waits : List Wait) : Missed waits 0 := ⟨waits, by simp⟩

theorem Missed.less {waits : List Wait} {count count' : Nat} (h : Missed waits count)
    (hle : count' ≤ count) : Missed waits count' := by
  obtain ⟨earlier, rfl⟩ := h
  refine ⟨earlier ++ List.replicate (count - count') .timeout, ?_⟩
  rw [List.append_assoc, List.replicate_append_replicate, Nat.sub_add_cancel hle]

theorem Missed.timeout {waits : List Wait} {count : Nat} (h : Missed waits count) :
    Missed (waits ++ [.timeout]) (count + 1) := by
  obtain ⟨earlier, rfl⟩ := h
  exact ⟨earlier, by rw [List.append_assoc, List.replicate_succ']⟩

/-- No peer is given up before the last `tries` waits have timed out. -/
def Perseveres (e : Encounter σ) (tries : Nat) : Prop :=
  ∀ link incidents now count, e.run link incidents = some now →
    now.station.result = some (.error (.error (.peerSilent count))) →
    count = tries ∧ Missed (e.waits link incidents) tries

/-- What a machine counts in order to persevere: the waits in a row that have timed out. -/
structure Counts (tries : Nat) (Inv : σ → List Deed → Prop) (missed : σ → Nat) : Prop where
  expire : ∀ m log, Inv m log → Inv (Machine.expire m) log
  next : ∀ m log queue m' queue' sent, Inv m log → Machine.step m queue = .next m' queue' sent →
    Inv m' (log ++ deeds queue queue' sent)
  timer : ∀ m log, Inv m log → Machine.step m [] = .wait → missed (Machine.expire m) ≤ missed m + 1
  idle : ∀ m, Machine.step m [] ≠ .wait → missed (Machine.expire m) = missed m
  woken : ∀ m log queue m' queue' sent, Inv m log → Machine.step m queue = .next m' queue' sent →
    Machine.step m [] = .wait → missed m' = 0
  kept : ∀ m log queue m' queue' sent, Inv m log → Machine.step m queue = .next m' queue' sent →
    Machine.step m [] ≠ .wait → missed m' ≤ missed m
  gone : ∀ m log queue count, Inv m log →
    Machine.step m queue = .stop (.error (.error (.peerSilent count))) →
    count = tries ∧ tries ≤ missed m ∧ Machine.step m [] ≠ .wait

variable {Inv : σ → List Deed → Prop} {missed : σ → Nat}

/-- As long as the machine runs its count is right, and it gives up only with the last count. -/
def Counted (tries : Nat) (Inv : σ → List Deed → Prop) (missed : σ → Nat) (e : Encounter σ)
    (waits : List Wait) : Prop :=
  (e.station.result = none → Inv e.station.machine e.log ∧ Missed waits (missed e.station.machine)) ∧
    ∀ count, e.station.result = some (.error (.error (.peerSilent count))) →
      count = tries ∧ Missed waits tries

theorem Counts.step (h : Counts tries Inv missed) {waits : List Wait}
    (hcounted : Counted tries Inv missed e waits) (hact : e.act link .step = some next) :
    Counted tries Inv missed next (waits ++ e.outcome .step) := by
  obtain ⟨hended, hcases⟩ := act_step hact
  have hrunning : e.station.result = none := by
    rwa [Station.ended, Option.isSome_eq_false_iff, Option.isNone_iff_eq_none] at hended
  obtain ⟨hinv, hmissed⟩ := hcounted.1 hrunning
  rcases hcases with ⟨last, hstop, hstation, -, -⟩ | ⟨sent, channel, hstep, -, hlog, -, hfailed⟩
  · rw [Counted, hstation]
    refine ⟨fun hnone => absurd hnone (Option.some_ne_none _), fun count hresult => ?_⟩
    -- an end that has not been finished off as a good one is the end of the step itself
    have hlast : last = .error (.error (.peerSilent count)) := by
      cases last with
      | ok t => cases hresult
      | error stop =>
          cases hresult
          rfl
    obtain ⟨hcount, hle, hwait⟩ := h.gone _ _ _ _ hinv (hlast ▸ hstop)
    have houtcome : e.outcome .step = [] := if_neg fun hw => hwait ((waiting_eq_true_iff hended).mp hw)
    rw [houtcome, List.append_nil]
    exact ⟨hcount, hmissed.less hle⟩
  · refine ⟨fun _ => ?_, fun count hresult => ?_⟩
    · rw [hlog]
      refine ⟨h.next _ _ _ _ _ _ hinv hstep, ?_⟩
      by_cases hwait : Machine.step e.station.machine [] = .wait
      · rw [h.woken _ _ _ _ _ _ hinv hstep hwait]
        exact missed_zero _
      · have houtcome : e.outcome .step = [] :=
          if_neg fun hw => hwait ((waiting_eq_true_iff hended).mp hw)
        rw [houtcome, List.append_nil]
        exact hmissed.less (h.kept _ _ _ _ _ _ hinv hstep hwait)
    · obtain ⟨stop, hstop, hsend⟩ := hfailed _ hresult
      cases hstop
      cases Channel.sendAll_unsent hsend

theorem Counts.expired (h : Counts tries Inv missed) {waits : List Wait}
    (hcounted : Counted tries Inv missed e waits) (hact : e.act link .timer = some next) :
    Counted tries Inv missed next (waits ++ e.outcome .timer) := by
  obtain ⟨hended, rfl⟩ := act_timer hact
  have hrunning : e.station.result = none := by
    rwa [Station.ended, Option.isSome_eq_false_iff, Option.isNone_iff_eq_none] at hended
  obtain ⟨hinv, hmissed⟩ := hcounted.1 hrunning
  refine ⟨fun _ => ⟨h.expire _ _ hinv, ?_⟩, fun count hresult => ?_⟩
  · show Missed _ (missed (Machine.expire e.station.machine))
    by_cases hwait : Machine.step e.station.machine [] = .wait
    · have houtcome : e.outcome .timer = [.timeout] :=
        if_pos ((waiting_eq_true_iff hended).mpr hwait)
      rw [houtcome]
      exact hmissed.timeout.less (h.timer _ _ hinv hwait)
    · have houtcome : e.outcome .timer = [] :=
        if_neg fun hw => hwait ((waiting_eq_true_iff hended).mp hw)
      rw [houtcome, List.append_nil, h.idle _ hwait]
      exact hmissed
  · cases hrunning.symm.trans hresult

/-- A machine that counts perseveres. -/
theorem Counts.perseveres (h : Counts tries Inv missed) {machine : σ} {faults : FaultModel}
    (hstart : Inv machine []) (hfresh : missed machine = 0) :
    (start machine faults).Perseveres tries := by
  intro link incidents now count hrun hresult
  have hkeeps := @run_keeps _ _ _ link outcome (Counted tries Inv missed)
    (fun e waits incident next hcounted hact => by
      cases incident with
      | arrival datagram =>
          cases hact
          rw [outcome, List.append_nil]
          exact hcounted
      | step => exact h.step hcounted hact
      | timer => exact h.expired hcounted hact)
    (start machine faults) now [] incidents
    ⟨fun _ => ⟨hstart, by rw [show (start machine faults).station.machine = machine from rfl, hfresh]
                          exact missed_zero _⟩, nofun⟩ hrun
  exact hkeeps.2 count hresult

end SelectiveReject.Scenario.Encounter
