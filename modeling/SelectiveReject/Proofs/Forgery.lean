import SelectiveReject.Proofs.Faults
import SelectiveReject.Scenario.Socket
import Mathlib.Algebra.GroupWithZero.Nat

/-!
# Faults do not forge packets

On a network that takes every datagram there are three ways for a call that sends to end.  They look the
same to the caller, who is always told the full length, and only the counters of the channel tell them apart:

```
whole      the bytes leave as they are
dropped    nothing leaves                      dropped + 1
flipped    one bit of them is turned over      flipped + 1
```

The bit is one of the datagram, since a draw is scaled to its length, and a packet in which one bit is
turned over is found to be damaged.  So whatever a seed brings, what arrives of a packet is the packet, or
nothing, or something that nobody takes for a packet.
-/

namespace SelectiveReject

/-! ## Bits -/

/-- Bit `k % 8` of byte `k / 8`; behind the last byte there are zeros. -/
def bitAt (x : Bytes) (k : Nat) : Bool := (x.getD (k / 8) 0).toNat.testBit (k % 8)

/-- One bit of the bytes is turned over, and no other. -/
structure OneBitOff (x y : Bytes) : Prop where
  length : y.length = x.length
  place : ∃ bit, bit < 8 * x.length ∧ ∀ k, bitAt y k ≠ bitAt x k ↔ k = bit

theorem toNat_bit : ∀ r, r < 8 → ((1 : UInt8) <<< UInt8.ofNat r).toNat = 2 ^ r := by decide

theorem testBit_turned (byte : UInt8) {r : Nat} (hr : r < 8) (j : Nat) :
    (byte ^^^ ((1 : UInt8) <<< UInt8.ofNat r)).toNat.testBit j =
      (byte.toNat.testBit j ^^ decide (r = j)) := by
  rw [UInt8.toNat_xor, Nat.testBit_xor, toNat_bit r hr, Nat.testBit_two_pow]

theorem bitAt_flipBit {x : Bytes} {bit : Nat} (h : bit < 8 * x.length) (k : Nat) :
    bitAt (flipBit x bit) k = (bitAt x k ^^ decide (bit = k)) := by
  unfold bitAt flipBit
  rw [List.getD_eq_getElem?_getD, List.getD_eq_getElem?_getD, List.getElem?_modify]
  by_cases hbyte : bit / 8 = k / 8
  · have hlt : k / 8 < x.length := by omega
    have hbits : bit % 8 = k % 8 ↔ bit = k := by omega
    simp only [if_pos hbyte, List.getElem?_eq_getElem hlt, Option.map_eq_map, Option.map_some,
      Option.getD_some, testBit_turned _ (Nat.mod_lt bit (by decide)), hbits]
  · have hne : bit ≠ k := fun heq => hbyte (heq ▸ rfl)
    simp only [if_neg hbyte, Option.map_eq_map, Option.map_id_fun', id, decide_eq_false hne,
      Bool.xor_false]

theorem oneBitOff_flipBit {x : Bytes} {bit : Nat} (h : bit < 8 * x.length) :
    OneBitOff x (flipBit x bit) where
  length := length_flipBit x bit
  place := by
    refine ⟨bit, h, fun k => ?_⟩
    rw [bitAt_flipBit h]
    cases bitAt x k <;> simp [@eq_comm _ k]

theorem OneBitOff.ne {x y : Bytes} (h : OneBitOff x y) : y ≠ x := by
  rintro rfl
  obtain ⟨bit, -, hbit⟩ := h.place
  exact (hbit bit).mpr rfl rfl

namespace Channel

variable {γ : Type}

/-- What becomes of bytes that are sent: the channel afterwards, and the datagram that leaves. -/
inductive Sends (c : Channel) (faults : FaultModel γ) (bytes : Bytes) :
    Channel → Option Departure → Prop
  | whole : Sends c faults bytes c (some ⟨c.peer, bytes⟩)
  | dropped (h : ¬ faults.Idle) : Sends c faults bytes { c with dropped := c.dropped + 1 } none
  | flipped (h : ¬ faults.Idle) {bit : Nat} (hbit : bit < 8 * bytes.length) :
      Sends c faults bytes { c with flipped := c.flipped + 1 } (some ⟨c.peer, flipBit bytes bit⟩)

variable {c c' : Channel} {faults : FaultModel γ} {bytes : Bytes} {left : Option Departure}

theorem send_sends [Randomness γ] (hsure : faults.Sure) (hlength : bytes.length * 8 < limit64) :
    ∃ g c' left, c.send .up faults bytes =
        ⟨.ok bytes.length, c', { faults with generator := g }, left⟩ ∧
      c.Sends faults bytes c' left := by
  obtain ⟨fault, g, hsample⟩ := hsure.sample hlength
  have hbusy : fault ≠ .none → ¬ faults.Idle := by
    intro hfault hidle
    rw [hidle.sample] at hsample
    exact hfault (Except.ok.inj (congrArg Prod.fst hsample)).symm
  simp only [send, hsample, release, Link.up]
  cases fault with
  | none => exact ⟨g, c, _, rfl, .whole⟩
  | dropped => exact ⟨g, _, none, rfl, .dropped (hbusy (by simp))⟩
  | flipped bit =>
      have hbit := FaultModel.sample_bit (congrArg Prod.fst hsample)
      exact ⟨g, _, _, rfl, .flipped (hbusy (by simp)) (by omega)⟩

theorem sendPacket_eq_send [Randomness γ] {link : Link} {p : Packet} (h : p.payload.length ≤ Packet.maxPayload) :
    c.sendPacket link faults p = c.send link faults p.frame := by
  rw [sendPacket, Packet.encode_eq_frame h]

theorem Sends.peer (h : c.Sends faults bytes c' left) : c'.peer = c.peer := by
  cases h <;> rfl

theorem Sends.target (h : c.Sends faults bytes c' left) : ∀ d ∈ left, d.target = c.peer := by
  intro d hd
  cases h <;> cases hd <;> rfl

theorem Sends.unforged (h : c.Sends faults bytes c' left) :
    ∀ d ∈ left, d.bytes = bytes ∨ OneBitOff bytes d.bytes := by
  intro d hd
  cases h with
  | whole =>
      cases hd
      exact Or.inl rfl
  | dropped => cases hd
  | flipped _ hbit =>
      cases hd
      exact Or.inr (oneBitOff_flipBit hbit)

/-- Without faults everything leaves as it is. -/
theorem Sends.idle (h : c.Sends faults bytes c' left) (hidle : faults.Idle) :
    left = some ⟨c.peer, bytes⟩ := by
  cases h with
  | whole => rfl
  | dropped hbusy => exact absurd hidle hbusy
  | flipped hbusy => exact absurd hidle hbusy

end Channel

namespace Scenario.Socket

variable {γ : Type}

/-- What is handed over to be sent. -/
inductive Load where
  | raw (bytes : Bytes)
  | packet (p : Packet)
  deriving DecidableEq

namespace Load

/-- The bytes that are to leave. -/
def bytes : Load → Bytes
  | .raw bytes => bytes
  | .packet p => p.frame

/-- A packet has no more payload than it can carry, and the bits of other bytes are counted in 64 bits. -/
def Fits : Load → Prop
  | .raw bytes => bytes.length * 8 < limit64
  | .packet p => p.payload.length ≤ Packet.maxPayload

instance : (load : Load) → Decidable load.Fits
  | .raw _ => inferInstanceAs (Decidable (_ < _))
  | .packet _ => inferInstanceAs (Decidable (_ ≤ _))

theorem Fits.length {load : Load} (h : load.Fits) : load.bytes.length * 8 < limit64 := by
  cases load with
  | raw bytes => exact h
  | packet p =>
      have hlength := Packet.length_frame p
      simp only [Fits, bytes, Packet.maxPayload, Packet.headerLength, limit64] at *
      omega

end Load

/-- What a channel is asked to do. -/
inductive Call where
  | send (load : Load)
  | setPeer (peer : Address)
  deriving DecidableEq

/-- A call that sends, the peer at that time, and what came of it. -/
structure Attempt where
  load : Load
  peer : Address
  result : Except Stop Nat
  departure : Option Departure

namespace Attempt

def left (a : Attempt) : Bool := a.departure.isSome

/-- Something left, but not what was handed over. -/
def altered (a : Attempt) : Bool := a.departure.any fun d => d.bytes ≠ a.load.bytes

/-- The full length is reported; what leaves goes to the peer and is what was handed over, or differs from
it in one bit, and then it is no packet any more. -/
structure Honest (a : Attempt) : Prop where
  result : a.result = .ok a.load.bytes.length
  target : ∀ d ∈ a.departure, d.target = a.peer
  bytes : ∀ d ∈ a.departure, d.bytes = a.load.bytes ∨ OneBitOff a.load.bytes d.bytes
  refused : ∀ p, a.load = .packet p → a.altered → ∀ d ∈ a.departure,
    Packet.decode d.bytes = .error .corrupt

end Attempt

def handOver [Randomness γ] (s : Socket γ) : Load → Socket γ × Except Stop Nat × Option Departure
  | .raw bytes => s.send bytes
  | .packet p => s.sendPacket p

/-- The socket after all calls, and what came of those that send. -/
def run [Randomness γ] (s : Socket γ) : List Call → Socket γ × List Attempt
  | [] => (s, [])
  | .setPeer peer :: rest => (s.setPeer peer).run rest
  | .send load :: rest =>
      let (next, result, departure) := s.handOver load
      let (last, attempts) := next.run rest
      (last, ⟨load, s.channel.peer, result, departure⟩ :: attempts)

/-- What is sent by the calls, and who was named last as the peer before each. -/
def addressed (peer : Address) : List Call → List (Load × Address)
  | [] => []
  | .setPeer peer :: rest => addressed peer rest
  | .send load :: rest => (load, peer) :: addressed peer rest

variable {s s' : Socket γ} {load : Load} {left : Option Departure} {c' : Channel} {calls : List Call}

theorem handOver_sends [Randomness γ] (hup : s.link = .up) (hsure : s.faults.Sure) (hfits : load.Fits) :
    ∃ g c' left, s.handOver load =
        ({ s with channel := c', faults := { s.faults with generator := g } },
          .ok load.bytes.length, left) ∧
      s.channel.Sends s.faults load.bytes c' left := by
  obtain ⟨g, c', left, hsend, hsends⟩ := @Channel.send_sends γ s.channel s.faults load.bytes _ hsure hfits.length
  refine ⟨g, c', left, ?_, hsends⟩
  have hout : s.handOver load = s.sent (s.channel.send s.link s.faults load.bytes) := by
    cases load with
    | raw bytes => rfl
    | packet p => exact congrArg s.sent (Channel.sendPacket_eq_send hfits)
  rw [← hup] at hsend
  rw [hout, hsend]
  rfl

theorem honest_of_sends (hfits : load.Fits) (h : s.channel.Sends s.faults load.bytes c' left) :
    Attempt.Honest ⟨load, s.channel.peer, .ok load.bytes.length, left⟩ where
  result := rfl
  target := h.target
  bytes := h.unforged
  refused p hp haltered d hd := by
    cases hp
    cases h with
    | whole =>
        cases hd
        simp [Attempt.altered, Load.bytes] at haltered
    | dropped => cases hd
    | flipped _ hbit =>
        cases hd
        have hlength : p.frame.length ≤ receiveLimit := by
          rw [Packet.length_frame]
          simp only [Load.Fits, Packet.maxPayload, Packet.headerLength, receiveLimit] at *
          omega
        exact Packet.decode_flipBit (Packet.decode_frame hfits) hlength hbit

theorem dropped_of_sends (h : s.channel.Sends s.faults load.bytes c' left) (peer : Address)
    (result : Except Stop Nat) :
    c'.dropped + (if (Attempt.mk load peer result left).left then 1 else 0) = s.channel.dropped + 1 := by
  cases h <;> rfl

theorem flipped_of_sends (h : s.channel.Sends s.faults load.bytes c' left) (peer : Address)
    (result : Except Stop Nat) :
    c'.flipped =
      s.channel.flipped + (if (Attempt.mk load peer result left).altered then 1 else 0) := by
  cases h with
  | whole => simp [Attempt.altered]
  | dropped => rfl
  | flipped _ hbit => simp [Attempt.altered, (oneBitOff_flipBit hbit).ne]

/-- What can be said of calls and of the socket that they leave. -/
structure Accounted (s : Socket γ) (calls : List Call) (s' : Socket γ) (attempts : List Attempt) : Prop where
  /-- Every call that sends is there, with the peer of its time. -/
  addressed : attempts.map (fun a => (a.load, a.peer)) = addressed s.channel.peer calls
  honest : ∀ a ∈ attempts, a.Honest
  /-- What did not leave is counted as dropped. -/
  dropped : s'.channel.dropped + attempts.countP Attempt.left = s.channel.dropped + attempts.length
  flipped : s'.channel.flipped = s.channel.flipped + attempts.countP Attempt.altered
  /-- At a rate of zero or below everything leaves as it is. -/
  whole : s.faults.Idle → ∀ a ∈ attempts, a.departure = some ⟨a.peer, a.load.bytes⟩

theorem accounted_nil : Accounted s [] s [] where
  addressed := rfl
  honest _ ha := absurd ha List.not_mem_nil
  dropped := rfl
  flipped := rfl
  whole _ _ ha := absurd ha List.not_mem_nil

theorem Accounted.setPeer {peer : Address} {attempts : List Attempt}
    (h : Accounted (s.setPeer peer) calls s' attempts) :
    Accounted s (.setPeer peer :: calls) s' attempts :=
  ⟨h.addressed, h.honest, h.dropped, h.flipped, h.whole⟩

theorem Accounted.send {next : Socket γ} {attempts : List Attempt} (h : Accounted next calls s' attempts)
    (hfits : load.Fits) (hsends : s.channel.Sends s.faults load.bytes next.channel left)
    (hrate : next.faults.rate = s.faults.rate) :
    Accounted s (.send load :: calls) s'
      (⟨load, s.channel.peer, .ok load.bytes.length, left⟩ :: attempts) where
  addressed := by
    rw [List.map_cons, h.addressed, hsends.peer]
    rfl
  honest := List.forall_mem_cons.mpr ⟨honest_of_sends hfits hsends, h.honest⟩
  dropped := by
    have hfirst := dropped_of_sends hsends s.channel.peer (.ok load.bytes.length)
    have hrest := h.dropped
    rw [List.countP_cons, List.length_cons]
    omega
  flipped := by
    rw [List.countP_cons, h.flipped, flipped_of_sends hsends s.channel.peer (.ok load.bytes.length)]
    omega
  whole hidle := by
    have hnext : next.faults.Idle := by
      unfold FaultModel.Idle
      rw [hrate]
      exact hidle
    exact List.forall_mem_cons.mpr ⟨hsends.idle hidle, h.whole hnext⟩

theorem run_accounted [Randomness γ] (hup : s.link = .up) (hsure : s.faults.Sure)
    (hfits : ∀ load, .send load ∈ calls → load.Fits) :
    Accounted s calls (s.run calls).1 (s.run calls).2 := by
  induction calls generalizing s with
  | nil => exact accounted_nil
  | cons call rest ih =>
      have hrest : ∀ load, .send load ∈ rest → load.Fits :=
        fun load hload => hfits load (List.mem_cons_of_mem _ hload)
      cases call with
      | setPeer peer => exact (@ih (s.setPeer peer) hup hsure hrest).setPeer
      | send load =>
          have hload := hfits load List.mem_cons_self
          obtain ⟨g, c', left, hout, hsends⟩ := handOver_sends hup hsure hload
          have hnext := @ih { s with channel := c', faults := { s.faults with generator := g } }
            hup hsure hrest
          simp only [run, hout]
          exact hnext.send hload hsends rfl

/-- **Faults never forge a packet**: on a network that takes every datagram, with any source of randomness
and whatever it draws, each call is answered with the full length and puts out what it was given, or
nothing, or what differs from it in one bit, and the counters tell how often. -/
theorem faults_accounted [Randomness γ] (hup : s.link = .up) (hrate : s.faults.Idle ∨ s.faults.Proper)
    (hfits : ∀ load, .send load ∈ calls → load.Fits) :
    Accounted s calls (s.run calls).1 (s.run calls).2 :=
  run_accounted hup (hrate.elim Or.inl FaultModel.Proper.sure) hfits

/-- A channel on which half of the packets are lost, and half of the others damaged. -/
def noisy : Socket := ⟨.up, { peer := ⟨"first", 0⟩ }, .make 0.5 (some 13), []⟩

/-- Three datagrams of nine bytes. -/
def three : List Call :=
  [.send (.packet ⟨1, .data, [1, 2]⟩), .setPeer ⟨"second", 0⟩,
   .send (.raw [0, 1, 2, 3, 4, 5, 6, 7, 8]), .send (.packet ⟨2, .data, [3, 4]⟩)]

theorem three_left :
    (noisy.run three).2.map (fun a => (a.left, a.altered)) =
      [(true, true), (true, false), (false, false)] := by
  decide +kernel

/-- The first is damaged, the second arrives at the second peer, and the third is lost. -/
theorem three_accounted :
    noisy.faults.Proper ∧ (∀ load, .send load ∈ three → load.Fits) ∧
      (noisy.run three).1.channel.dropped = 1 ∧ (noisy.run three).1.channel.flipped = 1 ∧
      (noisy.run three).2.map (·.peer) = [⟨"first", 0⟩, ⟨"second", 0⟩, ⟨"second", 0⟩] ∧
      ∀ a ∈ (noisy.run three).2, a.altered → ∀ p, a.load = .packet p →
        ∀ d ∈ a.departure, Packet.decode d.bytes = .error .corrupt := by
  have hproper : noisy.faults.Proper := by
    show (0.0 : Float) ≤ 0.5 ∧ (0.5 : Float) < 1.0
    decide
  have hfits : ∀ load, .send load ∈ three → load.Fits := by
    intro load hload
    simp only [three, List.mem_cons, Call.send.injEq, reduceCtorEq, List.not_mem_nil, or_false,
      false_or] at hload
    rcases hload with rfl | rfl | rfl <;> decide
  have hrun := faults_accounted rfl (Or.inr hproper) hfits
  have hfresh : noisy.channel.dropped = 0 ∧ noisy.channel.flipped = 0 := ⟨rfl, rfl⟩
  have hpeers := congrArg (List.map Prod.snd) hrun.addressed
  rw [List.map_map] at hpeers
  have hleft := congrArg (List.countP Prod.fst) three_left
  have haltered := congrArg (List.countP Prod.snd) three_left
  have hlength := congrArg List.length three_left
  rw [List.countP_map] at hleft haltered
  rw [List.length_map] at hlength
  have hdropped := hrun.dropped
  have hflipped := hrun.flipped
  have hcounts : (noisy.run three).2.countP Attempt.left = 2 ∧
      (noisy.run three).2.countP Attempt.altered = 1 ∧ (noisy.run three).2.length = 3 :=
    ⟨hleft, haltered, hlength⟩
  exact ⟨hproper, hfits, by omega, by omega, hpeers,
    fun a ha haltered p hp => (hrun.honest a ha).refused p hp haltered⟩

end Scenario.Socket

end SelectiveReject
