import SelectiveReject.Proofs.Requests

/-!
# Client and server agree on requests

A client checks a request before it sends it, and a server reads whatever comes.  Both let the same
requests pass: a payload is accepted exactly when it is that of a valid request,

```
ofPayload payload = .ok r  ↔  r.check = .ok () ∧ payload = r.toPayload    (ofPayload_eq_ok_iff)
```

and that is the case exactly when its bytes are well formed (`Acceptable`).  The names are compared as
bytes there: in UTF-8 the byte zero stands for the character NUL and for nothing else.
-/

namespace SelectiveReject

/-! ## The bytes of a name -/

theorem ofNat_ne_zero {n : Nat} (hpos : 0 < n) (hlt : n < 256) : 0 ≠ UInt8.ofNat n := by
  intro h
  have := congrArg UInt8.toNat h
  rw [UInt8.toNat_zero, UInt8.toNat_ofNat', Nat.mod_eq_of_lt hlt] at this
  omega

/-- Only NUL is written with a byte zero: every byte of a longer form has its highest bit set. -/
theorem zero_mem_utf8EncodeChar (c : Char) : 0 ∈ String.utf8EncodeChar c ↔ c = '\x00' := by
  have hnul : c = '\x00' ↔ c.val.toNat = 0 := by
    rw [← Char.toNat_inj]
    rfl
  rw [hnul]
  unfold String.utf8EncodeChar
  dsimp only
  split
  · rw [List.mem_singleton]
    refine ⟨fun h => ?_, fun h => by rw [h]; rfl⟩
    rcases Nat.eq_zero_or_pos c.val.toNat with h0 | hpos
    · exact h0
    · exact absurd h (ofNat_ne_zero hpos (by omega))
  · refine ⟨fun h => ?_, fun h => by omega⟩
    exfalso
    split at h
    · simp only [List.mem_cons, List.not_mem_nil, or_false] at h
      rcases h with h | h <;> exact ofNat_ne_zero (by omega) (by omega) h
    · split at h
      · simp only [List.mem_cons, List.not_mem_nil, or_false] at h
        rcases h with h | h | h <;> exact ofNat_ne_zero (by omega) (by omega) h
      · simp only [List.mem_cons, List.not_mem_nil, or_false] at h
        rcases h with h | h | h | h <;> exact ofNat_ne_zero (by omega) (by omega) h

theorem toList_toUTF8 (name : String) :
    name.toUTF8.toList = name.toList.flatMap String.utf8EncodeChar := by
  conv => lhs; rw [← String.ofList_toList (s := name)]
  rw [String.toUTF8_eq_toByteArray, String.toByteArray_ofList, toList_eq_data, List.utf8Encode,
    List.data_toByteArray]

/-- A name holds NUL if its bytes hold a zero. -/
theorem zero_mem_toUTF8 (name : String) : 0 ∈ name.toUTF8.toList ↔ '\x00' ∈ name.toList := by
  rw [toList_toUTF8, List.mem_flatMap]
  constructor
  · rintro ⟨c, hc, hzero⟩
    rw [← (zero_mem_utf8EncodeChar c).mp hzero]
    exact hc
  · intro h
    exact ⟨_, h, (zero_mem_utf8EncodeChar _).mpr rfl⟩

/-- A name that was read from bytes is written with them. -/
theorem toUTF8_of_fromUTF8 {bytes : Bytes} {name : String}
    (h : String.fromUTF8? bytes.toByteArray = some name) : name.toUTF8.toList = bytes := by
  unfold String.fromUTF8? at h
  split at h
  · cases h
    show bytes.toByteArray.toList = bytes
    rw [toList_eq_data, List.data_toByteArray]
  · cases h

theorem fromUTF8_eq_some {bytes : Bytes} (h : bytes.toByteArray.IsValidUTF8) :
    ∃ name, String.fromUTF8? bytes.toByteArray = some name := ⟨_, dif_pos h⟩

namespace FileRequest

variable {r r' : FileRequest} {payload : Bytes}

/-! ## Valid requests and their payloads -/

theorem toPayload_inj (h : r.toPayload = r'.toPayload) : r = r' := by
  obtain ⟨⟨window, buffer⟩, name⟩ := r
  obtain ⟨⟨window', buffer'⟩, name'⟩ := r'
  unfold toPayload at h
  obtain ⟨hsizes, hname⟩ := List.append_inj h rfl
  obtain ⟨hwindow, hbuffer⟩ := List.append_inj hsizes rfl
  have hbytes := congrArg List.toByteArray hname
  rw [toByteArray_toList, toByteArray_toList] at hbytes
  cases bigEndian32_inj hwindow
  cases bigEndian32_inj hbuffer
  cases String.toByteArray_inj.mp hbytes
  rfl

theorem toPayload_of_ofPayload (h : ofPayload payload = .ok r) : r.toPayload = payload := by
  unfold ofPayload at h
  split at h
  · split at h
    · cases h
    · rename_i hname
      obtain ⟨rfl, -⟩ := make_eq_ok h
      simp only [toPayload, bigEndian32_read, toUTF8_of_fromUTF8 hname]
      rfl
  · cases h

/-- What is read is what valid requests are written as. -/
theorem ofPayload_eq_ok_iff : ofPayload payload = .ok r ↔ r.check = .ok () ∧ payload = r.toPayload := by
  constructor
  · intro h
    exact ⟨check_of_ofPayload h, (toPayload_of_ofPayload h).symm⟩
  · rintro ⟨hcheck, rfl⟩
    exact ofPayload_toPayload hcheck

theorem make_eq_ok_iff {parameters : Parameters} {name : String} :
    make parameters name = .ok r ↔ r.check = .ok () ∧ r = ⟨parameters, name⟩ := by
  constructor
  · intro h
    obtain ⟨hr, hcheck⟩ := make_eq_ok h
    exact ⟨hcheck, hr⟩
  · rintro ⟨hcheck, rfl⟩
    unfold make
    rw [hcheck]
    rfl

/-- A request is made exactly when it would be read. -/
theorem make_eq_ok_iff_ofPayload {parameters : Parameters} {name : String} :
    make parameters name = .ok r ↔ ofPayload (toPayload ⟨parameters, name⟩) = .ok r := by
  rw [make_eq_ok_iff, ofPayload_eq_ok_iff]
  constructor
  · rintro ⟨hcheck, rfl⟩
    exact ⟨hcheck, rfl⟩
  · rintro ⟨hcheck, hpayload⟩
    exact ⟨hcheck, (toPayload_inj hpayload).symm⟩

/-! ## Payloads as bytes -/

/-- Two numbers in their ranges, and at most 100 bytes of UTF-8 without NUL, but at least one. -/
structure Acceptable (payload : Bytes) : Prop where
  length : 9 ≤ payload.length ∧ payload.length ≤ 108
  content : ∃ (window buffer : UInt32) (name : Bytes),
    payload = bigEndian32 window ++ bigEndian32 buffer ++ name ∧
    (1 ≤ window.toNat ∧ window.toNat ≤ 229) ∧ (400 ≤ buffer.toNat ∧ buffer.toNat ≤ 1400) ∧
    name.toByteArray.IsValidUTF8 ∧ 0 ∉ name

theorem acceptable_of_check (h : r.check = .ok ()) : Acceptable r.toPayload := by
  obtain ⟨hparameters, -, -, hnul⟩ := (check_eq_ok_iff r).mp h
  obtain ⟨hwindow, hwindow', hbuffer, hbuffer'⟩ := (Parameters.check_eq_ok_iff _).mp hparameters
  have hlength := length_name h
  refine ⟨?_, r.parameters.window, r.parameters.buffer, r.name.toUTF8.toList, rfl,
    ⟨hwindow, hwindow'⟩, ⟨hbuffer, hbuffer'⟩, ?_, ?_⟩
  · simp only [toPayload, List.length_append, length_bigEndian32, maxName] at *
    omega
  · rw [toByteArray_toList]
    exact r.name.isValidUTF8
  · rw [zero_mem_toUTF8]
    exact hnul

theorem check_of_acceptable (h : Acceptable payload) :
    ∃ r : FileRequest, r.check = .ok () ∧ payload = r.toPayload := by
  obtain ⟨hlength, window, buffer, bytes, rfl, hwindow, hbuffer, hutf8, hzero⟩ := h
  obtain ⟨name, hname⟩ := fromUTF8_eq_some hutf8
  have hbytes := toUTF8_of_fromUTF8 hname
  have hsize := length_toUTF8 name
  rw [hbytes] at hsize
  simp only [List.length_append, length_bigEndian32] at hlength
  refine ⟨⟨⟨window, buffer⟩, name⟩, (check_eq_ok_iff _).mpr ⟨?_, ?_, ?_, ?_⟩, ?_⟩
  · exact (Parameters.check_eq_ok_iff _).mpr ⟨hwindow.1, hwindow.2, hbuffer.1, hbuffer.2⟩
  · rintro rfl
    rw [String.utf8ByteSize_empty] at hsize
    omega
  · show name.utf8ByteSize ≤ 100
    omega
  · rw [← zero_mem_toUTF8, hbytes]
    exact hzero
  · rw [toPayload, hbytes]

theorem ofPayload_isOk_iff : (∃ r, ofPayload payload = .ok r) ↔ Acceptable payload := by
  constructor
  · rintro ⟨r, h⟩
    obtain ⟨hcheck, rfl⟩ := ofPayload_eq_ok_iff.mp h
    exact acceptable_of_check hcheck
  · intro h
    obtain ⟨r, hr⟩ := check_of_acceptable h
    exact ⟨r, ofPayload_eq_ok_iff.mpr hr⟩

/-! ## On the wire -/

/-- A valid request can be sent, and is what arrives. -/
theorem request_sent (h : r.check = .ok ()) : ∃ x, r.toPacket.encode = .ok x ∧
    Packet.decode x = .ok ⟨0, .fname, r.toPayload⟩ ∧
    ∀ client, Server.request ⟨client, x⟩ = .ok (some r) := by
  have hlength := length_toPayload h
  have hdecode : Packet.decode r.toPacket.frame = .ok r.toPacket := Packet.decode_frame hlength
  refine ⟨r.toPacket.frame, Packet.encode_eq_frame hlength, hdecode, fun client => ?_⟩
  have hreceived : Arrival.received ⟨client, r.toPacket.frame⟩ = r.toPacket.frame := by
    apply List.take_of_length_le
    rw [Packet.length_frame]
    simp only [Packet.headerLength, Packet.maxPayload, receiveLimit, toPacket] at *
    omega
  have hpacket : Arrival.packet ⟨client, r.toPacket.frame⟩ = .ok r.toPacket := by
    rw [Arrival.packet, hreceived]
    exact hdecode
  exact Server.request_eq hpacket rfl rfl h

/-- **The client makes the requests that the server reads, the server reads the payloads that are well
formed, and a request arrives as it was made.** -/
theorem request_agreed (payload : Bytes) (parameters : Parameters) (name : String) :
    ((∃ r, ofPayload payload = .ok r) ↔ Acceptable payload) ∧
    (∀ r, ofPayload payload = .ok r → r.toPayload = payload) ∧
    (∀ r, make parameters name = .ok r ↔ ofPayload (toPayload ⟨parameters, name⟩) = .ok r) ∧
    ∀ r, make parameters name = .ok r → r = ⟨parameters, name⟩ ∧
      ∃ x, r.toPacket.encode = .ok x ∧ Packet.decode x = .ok ⟨0, .fname, r.toPayload⟩ ∧
        ∀ client, Server.request ⟨client, x⟩ = .ok (some r) := by
  refine ⟨ofPayload_isOk_iff, fun r => toPayload_of_ofPayload, fun r => make_eq_ok_iff_ofPayload,
    fun r h => ?_⟩
  obtain ⟨hcheck, hr⟩ := make_eq_ok_iff.mp h
  exact ⟨hr, request_sent hcheck⟩

/-- Fifty letters of two bytes each: the longest name there may be. -/
def longestName : String := String.ofList (List.replicate 50 'é')

/-- A request for it arrives; its payload cut in the middle of the last letter is none. -/
theorem longestName_agreed :
    (∃ x, toPayload ⟨⟨229, 400⟩, longestName⟩ = x ∧ x.length = 108 ∧ Acceptable x ∧
      ¬ Acceptable x.dropLast) ∧
    ∃ r x, make ⟨229, 400⟩ longestName = .ok r ∧ r.name = longestName ∧ r.toPacket.encode = .ok x ∧
      ∀ client, Server.request ⟨client, x⟩ = .ok (some r) := by
  have hmake : make ⟨229, 400⟩ longestName = .ok ⟨⟨229, 400⟩, longestName⟩ := rfl
  obtain ⟨haccepts, -, hmade, hsent⟩ :=
    request_agreed (toPayload ⟨⟨229, 400⟩, longestName⟩) ⟨229, 400⟩ longestName
  obtain ⟨hcut, -⟩ :=
    request_agreed (toPayload ⟨⟨229, 400⟩, longestName⟩).dropLast ⟨229, 400⟩ longestName
  have hrefused : (ofPayload (toPayload ⟨⟨229, 400⟩, longestName⟩).dropLast).isOk = false := by
    decide +kernel
  refine ⟨⟨_, rfl, by decide +kernel, haccepts.mp ⟨_, (hmade _).mp hmake⟩, fun h => ?_⟩, ?_⟩
  · obtain ⟨r, hr⟩ := hcut.mpr h
    rw [hr] at hrefused
    cases hrefused
  · obtain ⟨-, x, hx, -, harrives⟩ := hsent _ hmake
    exact ⟨_, x, hmake, rfl, hx, harrives⟩

end FileRequest

end SelectiveReject
