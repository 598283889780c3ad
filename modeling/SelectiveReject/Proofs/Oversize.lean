import SelectiveReject.Proofs.Damage
import SelectiveReject.Proofs.Words

/-!
# Datagrams that are cut

Of a datagram 1500 bytes are received and the rest is lost, and nobody is told that there was more.  What
is received are whole words, so the sum of the datagram is the sum of what is received and of what is lost:

```
sum of all words = sum of the first 750 + sum of the others
```

The check knows the first part alone.  Of a datagram that was intact it fails just when the lost words do
not add up to a multiple of `0xFFFF`; zeros behind the first 1500 bytes are never missed, and nothing is
when the first 1500 bytes are a packet of their own.
-/

namespace SelectiveReject

namespace Checksum

/-- The words add up to what the check asks for. -/
def AddsUp (data : Bytes) : Prop := 0 < wordSum data ∧ wordSum data % 0xFFFF = 0

instance (data : Bytes) : Decidable (AddsUp data) := inferInstanceAs (Decidable (_ ∧ _))

theorem wordSum_append {x : Bytes} (h : x.length % 2 = 0) (y : Bytes) :
    wordSum (x ++ y) = wordSum x + wordSum y := by
  fun_induction wordSum x with
  | case1 a b rest ih =>
      have hrest : rest.length % 2 = 0 := by
        simp only [List.length_cons] at h
        omega
      rw [List.cons_append, List.cons_append, wordSum, ih hrest, ← Nat.add_assoc]
  | case2 a => cases h
  | case3 => exact (Nat.zero_add _).symm

end Checksum

namespace Arrival

open Checksum Packet

variable {a : Arrival}

theorem length_received (h : receiveLimit < a.bytes.length) : a.received.length = receiveLimit := by
  rw [received, List.length_take]
  omega

theorem wordSum_received (h : receiveLimit < a.bytes.length) :
    wordSum a.bytes = wordSum a.received + wordSum (a.bytes.drop receiveLimit) := by
  have heven : a.received.length % 2 = 0 := by
    rw [length_received h]
    rfl
  rw [← wordSum_append heven, received, List.take_append_drop]

/-- The first words of a datagram decide whether it is taken for damaged. -/
theorem packet_eq_corrupt_iff_sum (h : receiveLimit < a.bytes.length) :
    a.packet = .error .corrupt ↔ ¬ AddsUp a.received := by
  have hlength := length_received h
  rw [packet, decode_eq_corrupt_iff, ne_eq, checksum_eq_zero_iff (Nat.le_of_eq hlength), hlength]
  exact and_iff_right (by decide)

theorem packet_eq_ok_iff_sum (h : receiveLimit < a.bytes.length) (p : Packet) :
    a.packet = .ok p ↔ AddsUp a.received ∧ ∃ field, a.received = p.frameWith field := by
  rw [AddsUp, ← checksum_eq_zero_iff (Nat.le_of_eq (length_received h)), packet]
  constructor
  · exact eq_frameWith_of_decode
  · rintro ⟨hsum, field, hframe⟩
    rw [hframe] at hsum ⊢
    exact decode_frameWith hsum

/-- **Whether a datagram that is too long is taken for damaged depends on the sum of its first 750 words;
if it was intact, on the sum of those that are lost.** -/
theorem oversized_read (a : Arrival) (h : receiveLimit < a.bytes.length) :
    (a.packet = .error .corrupt ↔ ¬ AddsUp a.received) ∧
    (∀ p, a.packet = .ok p ↔ AddsUp a.received ∧ ∃ field, a.received = p.frameWith field) ∧
    (a.bytes.length ≤ longest → checksum a.bytes = 0 →
      (a.packet = .error .corrupt ↔
        wordSum (a.bytes.drop receiveLimit) % 0xFFFF ≠ 0 ∨ ∀ b ∈ a.received, b = 0)) := by
  refine ⟨packet_eq_corrupt_iff_sum h, packet_eq_ok_iff_sum h, fun hlength hintact => ?_⟩
  have hsum := wordSum_received h
  have hwhole := (checksum_eq_zero_iff_of_lt (wordSum_lt hlength)).mp hintact
  rw [packet_eq_corrupt_iff_sum h, ← wordSum_eq_zero_iff, AddsUp]
  omega

/-- A packet of 1500 bytes, with a payload of zeros. -/
def zeros : Packet := ⟨1, .data, List.replicate 1493 0⟩

/-- The packet with a checksum, and what is behind it. -/
def zerosThen (field : UInt16) (rest : Bytes) : Arrival := ⟨⟨"peer", 0⟩, zeros.frameWith field ++ rest⟩

/-- **Not every datagram that is too long is found to be damaged.** -/
theorem zeros_not_missed :
    ¬ ∀ a : Arrival, receiveLimit < a.bytes.length → a.packet = .error .corrupt := by
  intro hclaim
  have hlong : receiveLimit < (zerosThen 0xEFFE [0]).bytes.length := by decide +kernel
  have hcorrupt := (packet_eq_corrupt_iff_sum hlong).mp (hclaim _ hlong)
  exact hcorrupt (by decide +kernel)

/-- One zero more makes no difference, and a word that the checksum covers does. -/
theorem zeros_read :
    receiveLimit < (zerosThen 0xEFFE [0]).bytes.length ∧
      (zerosThen 0xEFFE [0]).packet = .ok zeros ∧
    checksum (zerosThen 0xEFFD [0, 1]).bytes = 0 ∧
      (zerosThen 0xEFFD [0, 1]).packet = .error .corrupt := by
  have hone : receiveLimit < (zerosThen 0xEFFE [0]).bytes.length := by decide +kernel
  have hword : receiveLimit < (zerosThen 0xEFFD [0, 1]).bytes.length := by decide +kernel
  have hintact : checksum (zerosThen 0xEFFD [0, 1]).bytes = 0 := by decide +kernel
  obtain ⟨-, hread, -⟩ := oversized_read _ hone
  obtain ⟨-, -, hmissed⟩ := oversized_read _ hword
  refine ⟨hone, ?_, hintact, ?_⟩
  · exact (hread zeros).mpr ⟨by decide +kernel, 0xEFFE, by decide +kernel⟩
  · exact (hmissed (by decide +kernel) hintact).mpr (Or.inl (by decide +kernel))

end Arrival

end SelectiveReject
