import SelectiveReject.Channel

/-!
# What a checksum tells

Carrying changes a sum of words by multiples of `0xFFFF` only, so a datagram passes the check exactly
when the sum of its words is a positive multiple of `0xFFFF`.  Two things follow:

```
decode p.frame = .ok p                                    (decode_frame)
decode x = .ok p → decode (flipBit x b) = .error .corrupt  (decode_flipBit)
```

The second holds because a byte that is changed changes the sum by less than `0xFFFF`.
-/

namespace SelectiveReject

namespace Checksum

/-! ## Sums of words -/

theorem foldCarries_mod (sum : Nat) : foldCarries sum % 65535 = sum % 65535 := by
  fun_induction foldCarries sum with
  | case1 sum h => rfl
  | case2 sum h ih =>
      rw [ih]
      omega

theorem foldCarries_pos {sum : Nat} (h : 0 < sum) : 0 < foldCarries sum := by
  fun_induction foldCarries sum with
  | case1 sum hle => exact h
  | case2 sum hle ih => exact ih (by omega)

theorem foldCarries_eq_max_iff (sum : Nat) :
    foldCarries sum = 65535 ↔ 0 < sum ∧ sum % 65535 = 0 := by
  have hmod := foldCarries_mod sum
  have hle := foldCarries_le sum
  constructor
  · intro h
    rw [h] at hmod
    refine ⟨Nat.pos_of_ne_zero fun h0 => ?_, by omega⟩
    subst h0
    rw [foldCarries, if_pos (by decide)] at h
    omega
  · rintro ⟨hpos, h0⟩
    have := foldCarries_pos hpos
    omega

theorem wordSum_le (data : Bytes) : wordSum data ≤ 65535 * ((data.length + 1) / 2) := by
  fun_induction wordSum data with
  | case1 a b rest ih =>
      have := a.toNat_lt
      have := b.toNat_lt
      simp only [List.length_cons]
      omega
  | case2 a =>
      have := a.toNat_lt
      simp only [List.length_cons, List.length_nil]
      omega
  | case3 => simp

/-- The accumulator is exact for every sum that fits it. -/
theorem accumulate_exact {data : Bytes} (h : wordSum data < limit32) :
    (accumulate 0 data).toNat = wordSum data := by
  rw [toNat_accumulate, UInt32.toNat_zero, Nat.zero_add, Nat.mod_eq_of_lt h]

theorem checksum_toNat_of_lt {data : Bytes} (h : wordSum data < limit32) :
    (checksum data).toNat = 65535 - foldCarries (wordSum data) := by
  rw [checksum, accumulate_exact h, UInt16.toNat_ofNat']
  omega

/-- The words of every datagram that fits a socket add up within 32 bits. -/
theorem checksum_toNat {data : Bytes} (h : data.length ≤ receiveLimit) :
    (checksum data).toNat = 65535 - foldCarries (wordSum data) := by
  have hsum := wordSum_le data
  refine checksum_toNat_of_lt ?_
  simp only [limit32, receiveLimit] at *
  omega

/-- A datagram passes the check if the sum of its words is a positive multiple of `0xFFFF`. -/
theorem checksum_eq_zero_iff {data : Bytes} (h : data.length ≤ receiveLimit) :
    checksum data = 0 ↔ 0 < wordSum data ∧ wordSum data % 65535 = 0 := by
  have hle := foldCarries_le (wordSum data)
  rw [← foldCarries_eq_max_iff, ← UInt16.toNat_inj, checksum_toNat h, UInt16.toNat_zero]
  omega

/-! ## One byte changed -/

/-- What a unit in byte `i` adds to the sum: an even byte is the high one of its word. -/
def unit (i : Nat) : Nat := if i % 2 = 0 then 256 else 1

theorem unit_add_two (i : Nat) : unit (i + 2) = unit i := by simp [unit]

theorem unit_eq (i : Nat) : unit i = 256 ∨ unit i = 1 := by
  unfold unit
  split <;> simp

theorem wordSum_modify (data : Bytes) (f : UInt8 → UInt8) :
    ∀ (i : Nat) (h : i < data.length),
      wordSum (data.modify i f) + unit i * data[i].toNat =
        wordSum data + unit i * (f data[i]).toNat := by
  fun_induction wordSum data with
  | case1 a b rest ih =>
      intro i h
      match i with
      | 0 =>
          have h0 : unit 0 = 256 := rfl
          simp only [List.modify_zero_cons, wordSum, h0, List.getElem_cons_zero]
          omega
      | 1 =>
          have h1 : unit 1 = 1 := rfl
          simp only [List.modify_succ_cons, List.modify_zero_cons, wordSum, h1,
            List.getElem_cons_succ, List.getElem_cons_zero]
          omega
      | i + 2 =>
          have := ih i (by simpa using h)
          simp only [List.modify_succ_cons, wordSum, unit_add_two, List.getElem_cons_succ]
          omega
  | case2 a =>
      intro i h
      have h0 : i = 0 := by simpa using h
      subst h0
      have h1 : unit 0 = 256 := rfl
      simp only [List.modify_zero_cons, wordSum, h1, List.getElem_cons_zero]
      omega
  | case3 => intro i h; simp at h

/-- A byte that is changed changes the sum by less than `0xFFFF`, so an intact datagram does not pass the
check any more. -/
theorem checksum_modify {data : Bytes} (hlen : data.length ≤ receiveLimit) (hvalid : checksum data = 0)
    {f : UInt8 → UInt8} {i : Nat} (hi : i < data.length) (hne : f data[i] ≠ data[i]) :
    checksum (data.modify i f) ≠ 0 := by
  have hsum := wordSum_modify data f i hi
  have hlen' : (data.modify i f).length ≤ receiveLimit := by rwa [List.length_modify]
  have hbyte : (f data[i]).toNat ≠ data[i].toNat := fun heq => hne (UInt8.toNat_inj.mp heq)
  have hlt := (f data[i]).toNat_lt
  have hlt' := data[i].toNat_lt
  rw [checksum_eq_zero_iff hlen] at hvalid
  rw [ne_eq, checksum_eq_zero_iff hlen']
  rcases unit_eq i with hunit | hunit
  · rw [hunit] at hsum
    omega
  · rw [hunit] at hsum
    omega

end Checksum

/-! ## Frames -/

theorem length_flipBit (data : Bytes) (bit : Nat) : (flipBit data bit).length = data.length := by
  simp [flipBit]

namespace Packet

open Checksum

theorem wordSum_frameWith (field : UInt16) (p : Packet) :
    wordSum (p.frameWith field) = wordSum (p.frameWith 0) + field.toNat := by
  have := field.toNat_lt
  simp only [frameWith, bigEndian32, bigEndian16, List.cons_append, List.nil_append, wordSum,
    UInt8.toNat_ofNat', UInt16.toNat_zero]
  omega

theorem length_frameWith (field : UInt16) (p : Packet) :
    (p.frameWith field).length = headerLength + p.payload.length := by
  simp only [frameWith, bigEndian32, bigEndian16, List.length_append, List.length_cons,
    List.length_nil, headerLength]
  omega

/-- What is sent passes the check. -/
theorem checksum_frame {p : Packet} (h : p.payload.length ≤ maxPayload) :
    checksum p.frame = 0 := by
  have hlen : ∀ field, (p.frameWith field).length ≤ receiveLimit := by
    intro field
    rw [length_frameWith]
    simp only [headerLength, maxPayload, receiveLimit] at *
    omega
  have hmod := foldCarries_mod (wordSum (p.frameWith 0))
  have hle := foldCarries_le (wordSum (p.frameWith 0))
  have hsum := wordSum_frameWith (checksum (p.frameWith 0)) p
  rw [checksum_toNat (hlen 0)] at hsum
  rw [frame, checksum_eq_zero_iff (hlen _), hsum]
  have hzero : wordSum (p.frameWith 0) = 0 → foldCarries (wordSum (p.frameWith 0)) = 0 := by
    intro h0
    rw [h0, foldCarries, if_pos (by decide)]
  omega

/-- Reading what was framed gives the packet. -/
theorem decode_frame {p : Packet} (h : p.payload.length ≤ maxPayload) :
    decode p.frame = .ok p := by
  have hsum := checksum_frame h
  unfold frame at hsum ⊢
  generalize checksum (p.frameWith 0) = field at hsum
  simp only [frameWith, bigEndian32, bigEndian16, List.cons_append, List.nil_append] at hsum ⊢
  simp only [decode, hsum, ne_eq, not_true_eq_false, if_false, Flag.ofCode_code, Except.map,
    readBigEndian32_bytes]

theorem encode_eq_frame {p : Packet} (h : p.payload.length ≤ maxPayload) :
    p.encode = .ok p.frame := if_neg (by omega)

/-- What a datagram holds must have passed the check. -/
theorem checksum_of_decode {x : Bytes} {p : Packet} (h : decode x = .ok p) :
    checksum x = 0 ∧ headerLength ≤ x.length := by
  unfold decode at h
  split at h
  · split at h
    · simp at h
    · refine ⟨by simp_all, ?_⟩
      simp only [List.length_cons, headerLength]
      omega
  · simp at h

/-- A datagram that is long enough and fails the check is damaged. -/
theorem decode_eq_corrupt {x : Bytes} (hlen : headerLength ≤ x.length) (h : checksum x ≠ 0) :
    decode x = .error .corrupt := by
  match x, hlen with
  | a :: b :: c :: d :: e :: f :: flag :: payload, _ => simp only [decode, if_pos h]

/-- A datagram with other bits in one byte is found to be damaged. -/
theorem decode_xor {x : Bytes} (hmin : headerLength ≤ x.length) (hmax : x.length ≤ receiveLimit)
    (hvalid : checksum x = 0) {i : Nat} (hi : i < x.length) {mask : UInt8} (hmask : mask ≠ 0) :
    decode (x.modify i (· ^^^ mask)) = .error .corrupt := by
  refine decode_eq_corrupt (by rwa [List.length_modify]) (checksum_modify hmax hvalid hi fun heq => ?_)
  exact hmask ((UInt8.xor_right_inj x[i]).mp (heq.trans UInt8.xor_zero.symm))

theorem bit_ne_zero : ∀ k, k < 8 → (1 : UInt8) <<< UInt8.ofNat k ≠ 0 := by decide

/-- A datagram in which one bit was turned over is found to be damaged. -/
theorem decode_flipBit {x : Bytes} {p : Packet} {bit : Nat} (hx : decode x = .ok p)
    (hlen : x.length ≤ receiveLimit) (hbit : bit < 8 * x.length) :
    decode (flipBit x bit) = .error .corrupt := by
  obtain ⟨hsum, hheader⟩ := checksum_of_decode hx
  exact decode_xor hheader hlen hsum (by omega) (bit_ne_zero _ (Nat.mod_lt _ (by decide)))

end Packet

end SelectiveReject
