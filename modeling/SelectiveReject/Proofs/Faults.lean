import SelectiveReject.Proofs.Framing

/-!
# What leaves a channel

Whatever the fault model draws, a datagram that leaves is one of the packets handed over, framed, with
at most one bit turned over; and it goes to the peer of the channel.  A fault model with a rate of
zero lets every packet through as it is.  With any rate from zero up to one, one excluded, a packet that
fits a datagram can be sent unless the network refuses.
-/

namespace SelectiveReject

/-- The bytes are those of a packet, with at most one bit turned over. -/
def Frames (bytes : Bytes) (p : Packet) : Prop :=
  bytes = p.frame ∨ ∃ bit, bit < 8 * p.frame.length ∧ bytes = flipBit p.frame bit

/-- A framed packet is read as what it is, or found to be damaged. -/
theorem Frames.decode {bytes : Bytes} {p : Packet} (h : Frames bytes p)
    (hp : p.payload.length ≤ Packet.maxPayload) :
    Packet.decode bytes = .ok p ∨ Packet.decode bytes = .error .corrupt := by
  rcases h with rfl | ⟨bit, hbit, rfl⟩
  · exact Or.inl (Packet.decode_frame hp)
  · right
    apply Packet.decode_flipBit (Packet.decode_frame hp) _ hbit
    rw [Packet.length_frame]
    simp only [Packet.maxPayload, Packet.headerLength, receiveLimit] at *
    omega

theorem Frames.length {bytes : Bytes} {p : Packet} (h : Frames bytes p) :
    bytes.length = Packet.headerLength + p.payload.length := by
  rcases h with rfl | ⟨bit, -, rfl⟩
  · exact Packet.length_frame p
  · rw [length_flipBit, Packet.length_frame]

section
variable {γ : Type}

namespace FaultModel

section
variable [Randomness γ]

/-- A bit that is turned over is one of the packet. -/
theorem sample_bit {m : FaultModel γ} {length bit : Nat}
    (h : (m.sample length).1 = .ok (.flipped bit)) : bit < length * 8 := by
  unfold sample at h
  split at h
  · simp at h
  · rename_i hrate
    split at h
    · simp at h
    · simp at h
    · split at h
      · simp at h
      · simp at h
      · rename_i g hg
        split at h
        · simp at h
        · have hb := Randomness.below_lt g (length * 8) (by omega)
          simp only [Except.ok.injEq, Fault.flipped.injEq] at h
          omega

end

/-- A model that neither loses nor damages anything. -/
def Idle (m : FaultModel γ) : Prop := m.rate ≤ 0.0

theorem Idle.sample [Randomness γ] {m : FaultModel γ} (h : m.Idle) (length : Nat) :
    m.sample length = (.ok .none, m) := if_pos (Or.inl h)

theorem disabled_idle : disabled.Idle := by
  show (0.0 : Float) ≤ 0.0
  decide

theorem ofConfig_idle {config : Config} (h : config.rate ≤ 0.0) (entropy : UInt64) :
    (ofConfig config entropy).Idle := h

/-- A model whose rate is a probability below one. -/
def Proper (m : FaultModel γ) : Prop := 0.0 ≤ m.rate ∧ m.rate < 1.0

theorem proper_of_check {config : Config} {m : FaultModel γ} (hcheck : config.check = .ok ())
    (hrate : m.rate = config.rate) : m.Proper := by
  unfold Config.check at hcheck
  split at hcheck
  · rename_i h
    unfold Proper
    rw [hrate]
    exact h
  · cases hcheck

variable [Randomness γ]

theorem Proper.chance {m : FaultModel γ} (h : m.Proper) (g : γ) :
    ∃ event g', Randomness.chance g m.rate = some (event, g') := ⟨_, _, if_pos h⟩

/-- A model that can always draw: its rate is at most zero, or draws from it do not fail. -/
def Sure (m : FaultModel γ) : Prop :=
  m.rate ≤ 0.0 ∨ ∀ g : γ, ∃ event g', Randomness.chance g m.rate = some (event, g')

theorem Proper.sure {m : FaultModel γ} (h : m.Proper) : m.Sure := Or.inr h.chance

/-- Drawing a fault does not fail, and leaves the rate as it is. -/
theorem Sure.sample {m : FaultModel γ} (h : m.Sure) {length : Nat} (hlength : length * 8 < limit64) :
    ∃ fault g, m.sample length = (.ok fault, { m with generator := g }) := by
  unfold FaultModel.sample
  by_cases hnone : m.rate ≤ 0.0 ∨ length = 0
  · rw [if_pos hnone]
    exact ⟨_, _, rfl⟩
  · have hchance := h.resolve_left fun hrate => hnone (Or.inl hrate)
    obtain ⟨lost, g, hlost⟩ := hchance m.generator
    obtain ⟨damaged, g', hdamaged⟩ := hchance g
    rw [if_neg hnone, hlost]
    cases lost with
    | true => exact ⟨_, _, rfl⟩
    | false =>
        simp only [hdamaged]
        cases damaged with
        | false => exact ⟨_, _, rfl⟩
        | true =>
            simp only [if_neg (Nat.not_le.mpr hlength)]
            exact ⟨_, _, rfl⟩

/-- Whether a draw fails depends on its probability alone. -/
theorem chance_of_chance {g : γ} {probability : Float} {drawn : Bool × γ}
    (h : Randomness.chance g probability = some drawn) (g' : γ) :
    ∃ event g'', Randomness.chance g' probability = some (event, g'') := by
  unfold Randomness.chance at *
  split at h
  · rename_i hrate
    rw [if_pos hrate]
    exact ⟨_, _, rfl⟩
  · rename_i hrate
    rw [if_neg hrate]
    split at h
    · rename_i hone
      rw [if_pos hone]
      exact ⟨_, _, rfl⟩
    · cases h

/-- A model that has drawn a fault for some bytes can always draw. -/
theorem sure_of_sample {m : FaultModel γ} {length : Nat} {fault : Fault} (hpos : 0 < length)
    (h : (m.sample length).1 = .ok fault) : m.Sure := by
  unfold sample at h
  by_cases hnone : m.rate ≤ 0.0 ∨ length = 0
  · exact Or.inl (hnone.resolve_right (Nat.ne_of_gt hpos))
  · rw [if_neg hnone] at h
    split at h
    · cases h
    all_goals exact Or.inr (chance_of_chance ‹_›)

theorem sample_rate (m : FaultModel γ) (length : Nat) : (m.sample length).2.rate = m.rate := by
  unfold sample
  split
  · rfl
  · split
    · rfl
    · rfl
    · split
      · rfl
      · rfl
      · split <;> rfl

end FaultModel

/-- The network does not take datagrams to the target, and this is what ends a machine that sends it one. -/
def Link.Refuses (link : Link) (target : Address) (stop : Stop) : Prop :=
  ∃ text, link.refusal target = some text ∧ stop = .error (.io text)

theorem Link.not_refuses_up (target : Address) (stop : Stop) : ¬ Link.up.Refuses target stop := by
  rintro ⟨text, htext, -⟩
  cases htext

/-- How sending ends that does not succeed. -/
inductive Unsent : Stop → Prop
  | refused (text : String) : Unsent (.error (.io text))
  | tooLarge (length limit : Nat) : Unsent (.error (.payloadTooLarge length limit))
  | aborted (a : Abort) : Unsent (.abort a)

namespace Channel

variable {c : Channel} {link : Link} {faults : FaultModel γ}

theorem release_channel (c : Channel) (link : Link) (faults : FaultModel γ) (bytes : Bytes) (length : Nat) :
    (c.release link faults bytes length).channel = c := by
  unfold release
  split <;> rfl

theorem release_departure {bytes : Bytes} {length : Nat} {d : Departure}
    (h : d ∈ (c.release link faults bytes length).departure) : d = ⟨c.peer, bytes⟩ := by
  unfold release at h
  split at h
  · simp at h
  · simpa using h.symm

theorem release_unsent {bytes : Bytes} {length : Nat} {stop : Stop}
    (h : (c.release link faults bytes length).result = .error stop) : Unsent stop := by
  unfold release at h
  split at h
  · cases h
    exact .refused _
  · cases h

theorem release_refused {bytes : Bytes} {length : Nat} {stop : Stop}
    (h : (c.release link faults bytes length).result = .error stop) : link.Refuses c.peer stop := by
  unfold release at h
  split at h
  · rename_i text hrefusal
    cases h
    exact ⟨text, hrefusal, rfl⟩
  · cases h

theorem release_ok {bytes : Bytes} {length n : Nat} {c' : Channel} {faults' : FaultModel γ}
    {left : Option Departure} (h : c.release link faults bytes length = ⟨.ok n, c', faults', left⟩) :
    c' = c ∧ faults' = faults ∧ left.toList.length = 1 := by
  unfold release at h
  split at h
  · cases h
  · cases h
    exact ⟨rfl, rfl, rfl⟩

variable [Randomness γ]

theorem sendPacket_departure {p : Packet} {d : Departure}
    (h : d ∈ (c.sendPacket link faults p).departure) : d.target = c.peer ∧ Frames d.bytes p := by
  unfold sendPacket at h
  split at h
  · simp at h
  · rename_i bytes hbytes
    have hframe : bytes = p.frame := by
      unfold Packet.encode at hbytes
      split at hbytes
      · simp at hbytes
      · simpa using hbytes.symm
    subst hframe
    have hbit : ∀ bit, (faults.sample p.frame.length).1 = .ok (.flipped bit) →
        bit < p.frame.length * 8 := fun bit => FaultModel.sample_bit
    unfold send at h
    generalize faults.sample p.frame.length = outcome at h hbit
    match outcome with
    | (.error a, faults) => simp at h
    | (.ok .none, faults) =>
        have := release_departure h
        subst this
        exact ⟨rfl, Or.inl rfl⟩
    | (.ok .dropped, faults) => simp at h
    | (.ok (.flipped bit), faults) =>
        have := release_departure h
        subst this
        have := hbit bit rfl
        exact ⟨rfl, Or.inr ⟨bit, by omega, rfl⟩⟩

theorem sendPacket_peer (p : Packet) : (c.sendPacket link faults p).channel.peer = c.peer := by
  unfold sendPacket
  split
  · rfl
  · unfold send
    split <;> first | rfl | rw [release_channel]

theorem sendAll_peer (ps : List Packet) : (c.sendAll link faults ps).2.1.peer = c.peer := by
  induction ps generalizing c faults with
  | nil => rfl
  | cons p rest ih =>
      have hfirst := @sendPacket_peer γ c link faults _ p
      unfold sendAll
      generalize c.sendPacket link faults p = sent at hfirst
      match sent with
      | ⟨.error e, c', faults', left⟩ => exact hfirst
      | ⟨.ok n, c', faults', left⟩ => exact (@ih c' faults').trans hfirst

/-- Each datagram that leaves holds one of the packets and goes to the peer. -/
theorem sendAll_departure {ps : List Packet} {d : Departure}
    (h : d ∈ (c.sendAll link faults ps).2.2.2) : d.target = c.peer ∧ ∃ p ∈ ps, Frames d.bytes p := by
  induction ps generalizing c faults with
  | nil => simp [sendAll] at h
  | cons p rest ih =>
      have hfirst := @sendPacket_departure γ c link faults _ p d
      have hpeer := @sendPacket_peer γ c link faults _ p
      unfold sendAll at h
      generalize c.sendPacket link faults p = sent at h hfirst hpeer
      match sent with
      | ⟨.error e, c', faults', left⟩ =>
          obtain ⟨htarget, hframes⟩ := hfirst (by simpa using h)
          exact ⟨htarget, p, List.mem_cons_self, hframes⟩
      | ⟨.ok n, c', faults', left⟩ =>
          rcases List.mem_append.mp h with h | h
          · obtain ⟨htarget, hframes⟩ := hfirst (by simpa using h)
            exact ⟨htarget, p, List.mem_cons_self, hframes⟩
          · obtain ⟨htarget, q, hq, hframes⟩ := ih h
            exact ⟨by rw [htarget]; exact hpeer, q, List.mem_cons_of_mem _ hq, hframes⟩

theorem sendPacket_unsent {p : Packet} {stop : Stop}
    (h : (c.sendPacket link faults p).result = .error stop) : Unsent stop := by
  unfold sendPacket at h
  split at h
  · rename_i e hencode
    cases h
    unfold Packet.encode at hencode
    split at hencode
    · cases hencode
      exact .tooLarge _ _
    · cases hencode
  · unfold send at h
    split at h
    · cases h
      exact .aborted _
    · exact release_unsent h
    · cases h
    · exact release_unsent h

/-- Packets that cannot be sent end a machine in one of three ways. -/
theorem sendAll_unsent {ps : List Packet} {stop : Stop}
    (h : (c.sendAll link faults ps).1 = .error stop) : Unsent stop := by
  induction ps generalizing c faults with
  | nil => cases h
  | cons p rest ih =>
      have hfirst := @sendPacket_unsent γ c link faults _ p stop
      unfold sendAll at h
      generalize c.sendPacket link faults p = sent at h hfirst
      match sent with
      | ⟨.error e, c', faults', left⟩ =>
          cases h
          exact hfirst rfl
      | ⟨.ok n, c', faults', left⟩ => exact ih h

/-- A packet that fits a datagram is sent, unless the network refuses it. -/
theorem sendPacket_sure (h : faults.Sure) {p : Packet}
    (hp : p.payload.length ≤ Packet.maxPayload) :
    (∃ g, (c.sendPacket link faults p).faults = { faults with generator := g }) ∧
      ∀ stop, (c.sendPacket link faults p).result = .error stop → link.Refuses c.peer stop := by
  have hlength : p.frame.length * 8 < limit64 := by
    rw [Packet.length_frame]
    simp only [Packet.headerLength, Packet.maxPayload, limit64] at *
    omega
  obtain ⟨fault, g, hsample⟩ := h.sample hlength
  have hrelease : ∀ (c : Channel) bytes length,
      (∃ g', (c.release link { faults with generator := g } bytes length).faults =
        { faults with generator := g' }) ∧
      ∀ stop, (c.release link { faults with generator := g } bytes length).result = .error stop →
        link.Refuses c.peer stop := by
    intro c bytes length
    refine ⟨⟨g, ?_⟩, fun stop => release_refused⟩
    unfold release
    split <;> rfl
  rw [sendPacket, Packet.encode_eq_frame hp]
  simp only [send, hsample]
  cases fault with
  | none => exact hrelease c _ _
  | dropped =>
      refine ⟨⟨g, rfl⟩, fun stop hstop => ?_⟩
      cases hstop
  | flipped bit => exact hrelease _ _ _

/-- Packets that fit a datagram are sent, unless the network refuses them. -/
theorem sendAll_sure {ps : List Packet} (h : faults.Sure)
    (hps : ∀ p ∈ ps, p.payload.length ≤ Packet.maxPayload) :
    (∃ g, (c.sendAll link faults ps).2.2.1 = { faults with generator := g }) ∧
      ∀ stop, (c.sendAll link faults ps).1 = .error stop →
        link.Refuses c.peer stop := by
  induction ps generalizing c faults with
  | nil => exact ⟨⟨faults.generator, rfl⟩, nofun⟩
  | cons p rest ih =>
      obtain ⟨⟨g, hfaults⟩, hrefused⟩ :=
        @sendPacket_sure γ c link faults _ h p (hps p List.mem_cons_self)
      have hpeer := @sendPacket_peer γ c link faults _ p
      unfold sendAll
      generalize c.sendPacket link faults p = sent at hfaults hrefused hpeer
      match sent with
      | ⟨.error e, c', faults', left⟩ =>
          cases hfaults
          refine ⟨⟨g, rfl⟩, fun stop hstop => ?_⟩
          cases hstop
          exact hrefused _ rfl
      | ⟨.ok n, c', faults', left⟩ =>
          cases hfaults
          rw [← hpeer]
          exact @ih c' { faults with generator := g } h fun q hq => hps q (List.mem_cons_of_mem _ hq)

/-- A model with a rate below one keeps it. -/
theorem sendAll_proper {ps : List Packet} (h : faults.Proper)
    (hps : ∀ p ∈ ps, p.payload.length ≤ Packet.maxPayload) :
    (c.sendAll link faults ps).2.2.1.Proper ∧
      ∀ stop, (c.sendAll link faults ps).1 = .error stop →
        link.Refuses c.peer stop := by
  obtain ⟨⟨g, hfaults⟩, hrefused⟩ := @sendAll_sure γ c link faults _ ps h.sure hps
  rw [hfaults]
  exact ⟨h, hrefused⟩

/-- What it means that packets have been sent, whether they left or were kept back. -/
structure Carried (c : Channel) (faults : FaultModel γ) (ps : List Packet) (c' : Channel)
    (faults' : FaultModel γ) (left : List Departure) : Prop where
  rate : faults'.rate = faults.rate
  fits : ∀ p ∈ ps, p.payload.length ≤ Packet.maxPayload
  sure : ps ≠ [] → faults.Sure
  /-- Each packet has left or is counted as kept back. -/
  count : left.length + c'.dropped = c.dropped + ps.length

theorem sendPacket_carried {p : Packet} {n : Nat} {c' : Channel} {faults' : FaultModel γ}
    {left : Option Departure} (h : c.sendPacket link faults p = ⟨.ok n, c', faults', left⟩) :
    c.Carried faults [p] c' faults' left.toList := by
  unfold sendPacket at h
  by_cases hp : p.payload.length ≤ Packet.maxPayload
  · rw [Packet.encode_eq_frame hp] at h
    have hpos : 0 < p.frame.length := by
      rw [Packet.length_frame]
      exact Nat.add_pos_left (by decide) _
    have hrate := faults.sample_rate p.frame.length
    have hsure := fun fault => @FaultModel.sure_of_sample γ _ faults p.frame.length fault hpos
    simp only [send] at h
    generalize faults.sample p.frame.length = drawn at h hrate hsure
    have hcarried : ∀ {fault drawn'}, drawn = (.ok fault, drawn') → faults' = drawn' →
        left.toList.length + c'.dropped = c.dropped + 1 → c.Carried faults [p] c' faults' left.toList := by
      rintro fault drawn' rfl rfl hcount
      exact ⟨hrate, fun q hq => by rwa [List.mem_singleton.mp hq], fun _ => hsure fault rfl, hcount⟩
    match drawn with
    | (.error a, drawn') => cases h
    | (.ok .none, drawn') =>
        obtain ⟨rfl, hfaults, hleft⟩ := release_ok h
        exact hcarried rfl hfaults (by rw [hleft, Nat.add_comm])
    | (.ok .dropped, drawn') =>
        cases h
        exact hcarried rfl rfl (Nat.zero_add _)
    | (.ok (.flipped bit), drawn') =>
        obtain ⟨rfl, hfaults, hleft⟩ := release_ok h
        exact hcarried rfl hfaults (by rw [hleft, Nat.add_comm])
  · rw [Packet.encode, if_pos (Nat.lt_of_not_le hp)] at h
    cases h

/-- Packets that were all sent have left or were kept back. -/
theorem sendAll_carried {ps : List Packet} {c' : Channel} {faults' : FaultModel γ}
    {left : List Departure} (h : c.sendAll link faults ps = (.ok (), c', faults', left)) :
    c.Carried faults ps c' faults' left := by
  induction ps generalizing c faults left with
  | nil =>
      cases h
      exact ⟨rfl, nofun, fun hne => absurd rfl hne, Nat.zero_add _⟩
  | cons p rest ih =>
      have hfirst := @sendPacket_carried γ c link faults _ p
      unfold sendAll at h
      generalize c.sendPacket link faults p = sent at h hfirst
      match sent with
      | ⟨.error e, c₁, faults₁, left₁⟩ => cases h
      | ⟨.ok n, c₁, faults₁, left₁⟩ =>
          have hone := hfirst rfl
          dsimp only at h
          generalize hrest : c₁.sendAll link faults₁ rest = more at h
          match more with
          | (.error e, c₂, faults₂, left₂) => cases h
          | (.ok (), c₂, faults₂, left₂) =>
              cases h
              have hmore := ih hrest
              have hcount := hone.count
              have hcount' := hmore.count
              refine ⟨hmore.rate.trans hone.rate, fun q hq => ?_, fun _ => hone.sure (by simp), ?_⟩
              · rcases List.mem_cons.mp hq with rfl | hq
                · exact hone.fits _ List.mem_cons_self
                · exact hmore.fits q hq
              · simp only [List.length_append, List.length_cons, List.length_nil] at *
                omega

/-- An idle fault model on a good link lets every packet through. -/
theorem sendAll_idle (hidle : faults.Idle) {ps : List Packet}
    (hps : ∀ p ∈ ps, p.payload.length ≤ Packet.maxPayload) :
    c.sendAll .up faults ps = (.ok (), c, faults, ps.map fun p => ⟨c.peer, p.frame⟩) := by
  induction ps with
  | nil => rfl
  | cons p rest ih =>
      have hp := hps p List.mem_cons_self
      have hsend : c.sendPacket .up faults p =
          ⟨.ok p.frame.length, c, faults, some ⟨c.peer, p.frame⟩⟩ := by
        simp only [sendPacket, Packet.encode_eq_frame hp, send, hidle.sample, release, Link.up]
      simp only [sendAll, hsend, ih fun q hq => hps q (List.mem_cons_of_mem _ hq), List.map_cons,
        Option.toList_some, List.singleton_append]

theorem sendPacket_faults (hidle : faults.Idle) (p : Packet) :
    (c.sendPacket link faults p).faults = faults := by
  unfold sendPacket
  split
  · rfl
  · unfold send
    rw [hidle.sample]
    dsimp only
    unfold release
    split <;> rfl

/-- An idle fault model stays as it is. -/
theorem sendAll_faults (hidle : faults.Idle) (ps : List Packet) :
    (c.sendAll link faults ps).2.2.1 = faults := by
  induction ps generalizing c with
  | nil => rfl
  | cons p rest ih =>
      have hfirst := @sendPacket_faults γ c link faults _ hidle p
      unfold sendAll
      generalize c.sendPacket link faults p = sent at hfirst
      match sent with
      | ⟨.error e, c', faults', left⟩ => exact hfirst
      | ⟨.ok n, c', faults', left⟩ =>
          cases hfirst
          exact ih

end Channel

end

end SelectiveReject
