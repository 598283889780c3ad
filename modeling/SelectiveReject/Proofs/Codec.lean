import SelectiveReject.Proofs.Framing

/-!
# Which datagrams hold a packet

The words of a datagram are added in one's-complement arithmetic: a carry above 16 bits goes round to
the lowest bit (`roundSum`).  A datagram is intact when its words add up to `0xFFFF`.  In this arithmetic
zero has two forms, `0x0000` and `0xFFFF`, and so two checksum fields may fit one packet:

```
checksum (p.frameWith field) = 0  ↔  field = checksum (p.frameWith 0), or
                                     field = 0xFFFF where that checksum is 0   (checksum_frameWith_iff)
```

`encode` always writes the first of them.  Hence what `decode` accepts is what `encode` writes, and the
frames with a zero field in which the other zero stands instead.
-/

namespace SelectiveReject

namespace Checksum

/-- One's-complement addition of two words: the carry goes round to the lowest bit. -/
def addRound (a b : Nat) : Nat := (a + b) % 65536 + (a + b) / 65536

/-- The one's-complement sum of all 16-bit words of the data. -/
def roundSum : Bytes → Nat
  | a :: b :: rest => addRound (a.toNat * 256 + b.toNat) (roundSum rest)
  | [a] => a.toNat * 256
  | [] => 0

/-- Carrying keeps a sum modulo `0xFFFF`, and keeps it positive. -/
theorem addRound_spec {a b : Nat} (ha : a ≤ 65535) (hb : b ≤ 65535) :
    addRound a b ≤ 65535 ∧ addRound a b % 65535 = (a + b) % 65535 ∧
      (0 < addRound a b ↔ 0 < a + b) := by
  unfold addRound
  omega

theorem roundSum_spec (data : Bytes) :
    roundSum data ≤ 65535 ∧ roundSum data % 65535 = wordSum data % 65535 ∧
      (0 < roundSum data ↔ 0 < wordSum data) := by
  fun_induction roundSum data with
  | case1 a b rest ih =>
      obtain ⟨hle, hmod, hpos⟩ := ih
      have ha := a.toNat_lt
      have hb := b.toNat_lt
      obtain ⟨hle', hmod', hpos'⟩ :=
        @addRound_spec (a.toNat * 256 + b.toNat) (roundSum rest) (by omega) hle
      rw [wordSum]
      refine ⟨hle', by omega, by omega⟩
  | case2 a =>
      have ha := a.toNat_lt
      rw [wordSum]
      omega
  | case3 =>
      rw [wordSum]
      omega

/-- It makes no difference whether carries go round at once or all at the end. -/
theorem foldCarries_wordSum (data : Bytes) : foldCarries (wordSum data) = roundSum data := by
  obtain ⟨hle, hmod, hpos⟩ := roundSum_spec data
  have hle' := foldCarries_le (wordSum data)
  have hmod' := foldCarries_mod (wordSum data)
  rcases Nat.eq_zero_or_pos (wordSum data) with h0 | h0
  · rw [h0, foldCarries, if_pos (by decide)]
    omega
  · have hpos' := foldCarries_pos h0
    omega

/-- A datagram passes the check if its words add up to `0xFFFF`. -/
theorem checksum_eq_zero_iff_roundSum {data : Bytes} (h : data.length ≤ receiveLimit) :
    checksum data = 0 ↔ roundSum data = 65535 := by
  have hle := (roundSum_spec data).1
  rw [← UInt16.toNat_inj, checksum_toNat h, foldCarries_wordSum, UInt16.toNat_zero]
  omega

end Checksum

theorem Flag.code_of_ofCode {value : UInt8} {flag : Flag} (h : ofCode value = .ok flag) :
    flag.code = value := by
  unfold ofCode at h
  split at h
  · rename_i found hfound
    cases h
    have hcode := List.find?_some hfound
    exact of_decide_eq_true hcode
  · cases h

/-- A byte that stands for no flag is reported. -/
theorem Flag.ofCode_error {value : UInt8} {e : Error} (h : ofCode value = .error e) :
    e = .unknownFlag value := by
  unfold ofCode at h
  split at h <;> cases h
  rfl

namespace Packet

open Checksum

/-! ## The checksum field -/

/-- The bytes of a datagram in which its checksum is. -/
def field (datagram : Bytes) : Bytes := (datagram.drop 4).take 2

/-- The datagram with another checksum. -/
def withField (checksum : UInt16) (datagram : Bytes) : Bytes :=
  datagram.take 4 ++ bigEndian16 checksum ++ datagram.drop 6

variable {p : Packet} {x : Bytes}

theorem field_frameWith (c : UInt16) (p : Packet) : field (p.frameWith c) = bigEndian16 c := rfl

theorem withField_frameWith (c c' : UInt16) (p : Packet) :
    withField c' (p.frameWith c) = p.frameWith c' := rfl

/-- The words of a packet never add up to nothing: no flag has the code zero. -/
theorem wordSum_frameWith_pos (p : Packet) : 0 < wordSum (p.frameWith 0) := by
  have hcode : 0 < p.flag.code.toNat := by cases p.flag <;> decide
  have hword : p.flag.code.toNat * 256 ≤ wordSum (p.flag.code :: p.payload) := by
    cases p.payload with
    | nil => exact Nat.le_refl _
    | cons b rest =>
        rw [wordSum]
        omega
  have hsum : wordSum (p.flag.code :: p.payload) ≤ wordSum (p.frameWith 0) := by
    simp only [frameWith, bigEndian32, bigEndian16, List.cons_append, List.nil_append, wordSum]
    omega
  omega

/-- The fields that fit a packet: its checksum, and the other zero where the checksum is zero. -/
theorem checksum_frameWith_iff (h : p.payload.length ≤ maxPayload) (c : UInt16) :
    checksum (p.frameWith c) = 0 ↔
      c = checksum (p.frameWith 0) ∨ checksum (p.frameWith 0) = 0 ∧ c = 0xFFFF := by
  have hlen : ∀ c, (p.frameWith c).length ≤ receiveLimit := by
    intro c
    rw [length_frameWith]
    simp only [headerLength, maxPayload, receiveLimit] at *
    omega
  have hpos := wordSum_frameWith_pos p
  have hmod := foldCarries_mod (wordSum (p.frameWith 0))
  have hfold := foldCarries_pos hpos
  have hle := foldCarries_le (wordSum (p.frameWith 0))
  have hc := c.toNat_lt
  have hffff : (0xFFFF : UInt16).toNat = 65535 := rfl
  rw [checksum_eq_zero_iff (hlen c), wordSum_frameWith, ← UInt16.toNat_inj, ← UInt16.toNat_inj,
    ← UInt16.toNat_inj, checksum_toNat (hlen 0), UInt16.toNat_zero, hffff]
  omega

/-! ## Reading -/

/-- A datagram that holds a packet is a frame of it. -/
theorem eq_frameWith_of_decode (h : decode x = .ok p) :
    checksum x = 0 ∧ ∃ c, x = p.frameWith c := by
  refine ⟨(checksum_of_decode h).1, ?_⟩
  unfold decode at h
  split at h
  · rename_i a b c d e f code payload
    split at h
    · cases h
    · cases hflag : Flag.ofCode code with
      | error e =>
          rw [hflag] at h
          cases h
      | ok flag =>
          rw [hflag] at h
          cases h
          refine ⟨readBigEndian16 e f, ?_⟩
          simp only [frameWith, bigEndian32_read, bigEndian16_read, Flag.code_of_ofCode hflag]
          rfl
  · cases h

/-- A frame holds its packet as soon as it passes the check. -/
theorem decode_frameWith {c : UInt16} (h : checksum (p.frameWith c) = 0) :
    decode (p.frameWith c) = .ok p := by
  unfold frameWith at h ⊢
  simp only [bigEndian32, bigEndian16, List.cons_append, List.nil_append] at h ⊢
  simp only [decode, h, ne_eq, not_true_eq_false, if_false, Flag.ofCode_code, Except.map,
    readBigEndian32_bytes]

theorem encode_eq_ok_iff : p.encode = .ok x ↔ p.payload.length ≤ maxPayload ∧ x = p.frame := by
  unfold encode
  split
  · rename_i hlong
    simp only [reduceCtorEq, false_iff, not_and]
    omega
  · rename_i hshort
    simp only [Except.ok.injEq]
    exact ⟨fun h => ⟨Nat.le_of_not_lt hshort, h.symm⟩, fun h => h.2.symm⟩

theorem encode_eq_error_iff : (∃ e, p.encode = .error e) ↔ maxPayload < p.payload.length := by
  unfold encode
  split
  · rename_i hlong
    exact ⟨fun _ => hlong, fun _ => ⟨_, rfl⟩⟩
  · rename_i hshort
    exact ⟨fun h => (by obtain ⟨e, he⟩ := h; cases he), fun h => absurd h hshort⟩

/-- What is read is what is written, or what is written with the other zero as its checksum. -/
theorem decode_eq_ok_iff (hlen : x.length ≤ maxLength) : decode x = .ok p ↔
    p.encode = .ok x ∨ ∃ y, p.encode = .ok y ∧ field y = bigEndian16 0 ∧ x = withField 0xFFFF y := by
  constructor
  · intro h
    obtain ⟨hsum, c, rfl⟩ := eq_frameWith_of_decode h
    have hshort : p.payload.length ≤ maxPayload := by
      rw [length_frameWith, maxLength] at hlen
      omega
    have hframe := encode_eq_frame hshort
    unfold frame at hframe
    rcases (checksum_frameWith_iff hshort c).mp hsum with rfl | ⟨hzero, rfl⟩
    · exact Or.inl hframe
    · rw [hzero] at hframe
      exact Or.inr ⟨_, hframe, field_frameWith 0 p, (withField_frameWith 0 0xFFFF p).symm⟩
  · rintro (h | ⟨y, h, hfield, rfl⟩)
    · obtain ⟨hshort, rfl⟩ := encode_eq_ok_iff.mp h
      exact decode_frame hshort
    · obtain ⟨hshort, rfl⟩ := encode_eq_ok_iff.mp h
      have hzero : checksum (p.frameWith 0) = 0 := bigEndian16_inj hfield
      exact decode_frameWith ((checksum_frameWith_iff hshort 0xFFFF).mpr (Or.inr ⟨hzero, rfl⟩))

/-- No packet is written with the second zero as its checksum. -/
theorem field_encode_ne (h : p.encode = .ok x) : field x ≠ bigEndian16 0xFFFF := by
  obtain ⟨hshort, rfl⟩ := encode_eq_ok_iff.mp h
  intro hfield
  have hffff : checksum (p.frameWith 0) = 0xFFFF := bigEndian16_inj hfield
  have hlen : (p.frameWith 0).length ≤ receiveLimit := by
    rw [length_frameWith]
    simp only [headerLength, maxPayload, receiveLimit] at *
    omega
  have hfold := foldCarries_pos (wordSum_frameWith_pos p)
  have hnumber := congrArg UInt16.toNat hffff
  rw [checksum_toNat hlen, show (0xFFFF : UInt16).toNat = 65535 from rfl] at hnumber
  omega

/-- Writing what was read gives the datagram back, with the first zero as its checksum. -/
theorem encode_of_decode (hlen : x.length ≤ maxLength) (h : decode x = .ok p) :
    p.encode = .ok (if field x = bigEndian16 0xFFFF then withField 0 x else x) := by
  rcases (decode_eq_ok_iff hlen).mp h with hencode | ⟨y, hencode, hfield, rfl⟩
  · rw [if_neg (field_encode_ne hencode)]
    exact hencode
  · obtain ⟨hshort, rfl⟩ := encode_eq_ok_iff.mp hencode
    have hzero : checksum (p.frameWith 0) = 0 := bigEndian16_inj hfield
    rw [frame, hzero, withField_frameWith, field_frameWith, if_pos rfl, withField_frameWith]
    exact encode_eq_ok_iff.mpr ⟨hshort, by rw [frame, hzero]⟩

/-- What is wrong with a datagram that holds no packet. -/
def fault (datagram : Bytes) : Error :=
  if datagram.length < headerLength then .truncated datagram.length
  else if roundSum datagram ≠ 65535 then .corrupt
  else .unknownFlag (datagram.getD 6 0)

theorem decode_eq_truncated (h : x.length < headerLength) :
    decode x = .error (.truncated x.length) := by
  unfold decode
  split
  · simp only [List.length_cons, headerLength] at h
    omega
  · rfl

/-- An intact datagram that holds no packet has a flag that nobody knows. -/
theorem decode_eq_unknownFlag (hlen : headerLength ≤ x.length) (hsum : checksum x = 0)
    (h : ∀ p, decode x ≠ .ok p) : decode x = .error (.unknownFlag (x.getD 6 0)) := by
  match x, hlen with
  | a :: b :: c :: d :: e :: f :: code :: payload, _ =>
      simp only [decode, hsum, ne_eq, not_true_eq_false, if_false] at h ⊢
      cases hflag : Flag.ofCode code with
      | ok flag =>
          rw [hflag] at h
          exact absurd rfl (h _)
      | error e =>
          rw [Flag.ofCode_error hflag]
          rfl

/-- A datagram that is long enough is found to be damaged just when it fails the check. -/
theorem decode_eq_corrupt_iff :
    decode x = .error .corrupt ↔ headerLength ≤ x.length ∧ checksum x ≠ 0 := by
  by_cases hlength : headerLength ≤ x.length
  · by_cases hsum : checksum x = 0
    · refine ⟨fun hcorrupt => ?_, fun hdamaged => absurd hsum hdamaged.2⟩
      rw [decode_eq_unknownFlag hlength hsum (by simp [hcorrupt])] at hcorrupt
      cases hcorrupt
    · exact ⟨fun _ => ⟨hlength, hsum⟩, fun _ => decode_eq_corrupt hlength hsum⟩
  · rw [decode_eq_truncated (Nat.lt_of_not_le hlength)]
    exact ⟨nofun, fun hdamaged => absurd hdamaged.1 hlength⟩

theorem decode_eq_fault (hlen : x.length ≤ receiveLimit) (h : ∀ p, decode x ≠ .ok p) :
    decode x = .error (fault x) := by
  have hsum := checksum_eq_zero_iff_roundSum hlen
  unfold fault
  by_cases hheader : x.length < headerLength
  · rw [if_pos hheader]
    exact decode_eq_truncated hheader
  · rw [if_neg hheader]
    by_cases hround : roundSum x = 65535
    · rw [if_neg (fun hne => hne hround)]
      exact decode_eq_unknownFlag (Nat.le_of_not_lt hheader) (hsum.mpr hround) h
    · rw [if_pos hround]
      exact decode_eq_corrupt (Nat.le_of_not_lt hheader) fun hzero => hround (hsum.mp hzero)

/-- **Reading undoes writing, and accepts besides what is written only its second form of zero; any other
datagram is refused for the first thing that is wrong with it.** -/
theorem codec_exact (p : Packet) (x : Bytes) :
    ((∃ e, p.encode = .error e) ↔ maxPayload < p.payload.length) ∧
    (p.payload.length ≤ maxPayload → ∃ y, p.encode = .ok y ∧ decode y = .ok p) ∧
    (x.length ≤ maxLength →
      (decode x = .ok p ↔ p.encode = .ok x ∨
        ∃ y, p.encode = .ok y ∧ field y = bigEndian16 0 ∧ x = withField 0xFFFF y) ∧
      (decode x = .ok p →
        p.encode = .ok (if field x = bigEndian16 0xFFFF then withField 0 x else x))) ∧
    (x.length ≤ receiveLimit → (∀ q, decode x ≠ .ok q) → decode x = .error (fault x)) :=
  ⟨encode_eq_error_iff, fun h => ⟨p.frame, encode_eq_frame h, decode_frame h⟩,
    fun hlen => ⟨decode_eq_ok_iff hlen, encode_of_decode hlen⟩, decode_eq_fault⟩

/-- A packet whose words, without a checksum, already add up to `0xFFFF`. -/
def fullPacket : Packet := ⟨0, .data, [0xFF, 0xEF]⟩

/-- It may come with either zero, and is damaged with any other field. -/
theorem fullPacket_exact :
    decode (fullPacket.frameWith 0xFFFF) = .ok fullPacket ∧
      fullPacket.encode = .ok (withField 0 (fullPacket.frameWith 0xFFFF)) ∧
      decode (fullPacket.frameWith 1) = .error .corrupt := by
  have hfull : ∃ y, fullPacket.encode = .ok y ∧ field y = bigEndian16 0 ∧
      fullPacket.frameWith 0xFFFF = withField 0xFFFF y := 
    ⟨fullPacket.frame, encode_eq_frame (by decide), by decide +kernel, by decide +kernel⟩
  obtain ⟨-, -, hread, -⟩ := codec_exact fullPacket (fullPacket.frameWith 0xFFFF)
  obtain ⟨haccepts, hgives⟩ := hread (by decide)
  have hdecode := haccepts.mpr (Or.inr hfull)
  refine ⟨hdecode, hgives hdecode, ?_⟩
  have hrefused : ∀ q, decode (fullPacket.frameWith 1) ≠ .ok q := by
    intro q hq
    exact absurd (checksum_of_decode hq).1 (by decide +kernel)
  have hcorrupt : fault (fullPacket.frameWith 1) = .corrupt := by decide +kernel
  rw [(codec_exact fullPacket (fullPacket.frameWith 1)).2.2.2 (by decide) hrefused, hcorrupt]

end Packet

end SelectiveReject
