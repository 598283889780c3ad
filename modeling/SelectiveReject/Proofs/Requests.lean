import SelectiveReject.Proofs.Framing
import SelectiveReject.Server

/-!
# Requests reach the server as they are

A request that passes its check is read back from its payload, and a server that receives it as a
packet takes it for what it is:

```
r.check = .ok () → ofPayload r.toPayload = .ok r   (ofPayload_toPayload)
```
-/

namespace SelectiveReject

/-! ## Bytes of a name -/

theorem toListLoop_eq (bytes : ByteArray) (i : Nat) (read : List UInt8) :
    ByteArray.toList.loop bytes i read = read.reverse ++ bytes.data.toList.drop i := by
  fun_induction ByteArray.toList.loop bytes i read with
  | case1 i read h ih =>
      have hi : i < bytes.data.toList.length := h
      have hget : bytes.get! i = bytes.data.toList[i] := by
        simp [ByteArray.get!, getElem!_pos bytes.data i h]
      rw [ih, List.drop_eq_getElem_cons hi, hget, List.reverse_cons, List.append_assoc,
        List.singleton_append]
  | case2 i read h =>
      have hi : bytes.data.toList.length ≤ i := Nat.le_of_not_lt h
      rw [List.drop_eq_nil_of_le hi, List.append_nil]

theorem toList_eq_data (bytes : ByteArray) : bytes.toList = bytes.data.toList := by
  rw [ByteArray.toList, toListLoop_eq, List.reverse_nil, List.nil_append, List.drop_zero]

theorem toByteArray_toList (bytes : ByteArray) : bytes.toList.toByteArray = bytes := by
  apply ByteArray.ext
  rw [toList_eq_data, List.data_toByteArray, Array.toArray_toList]

theorem length_toUTF8 (name : String) : name.toUTF8.toList.length = name.utf8ByteSize := by
  rw [toList_eq_data]
  exact String.size_toByteArray

theorem fromUTF8_toUTF8 (name : String) : String.fromUTF8? name.toUTF8 = some name :=
  dif_pos name.isValidUTF8

namespace Parameters

/-- Both sizes of checked parameters are in their range. -/
theorem check_eq_ok_iff (p : Parameters) :
    p.check = .ok () ↔ 1 ≤ p.window.toNat ∧ p.window.toNat ≤ 229 ∧
      400 ≤ p.buffer.toNat ∧ p.buffer.toNat ≤ 1400 := by
  unfold check minWindow maxWindow minBuffer maxBuffer
  split
  · simp only [reduceCtorEq, false_iff]
    omega
  · split
    · simp only [reduceCtorEq, false_iff]
      omega
    · simp only [true_iff]
      omega

end Parameters

namespace FileRequest

variable {r : FileRequest}

/-- What a valid request is. -/
theorem check_eq_ok_iff (r : FileRequest) : r.check = .ok () ↔ r.parameters.check = .ok () ∧
    r.name ≠ "" ∧ r.name.utf8ByteSize ≤ maxName ∧ '\x00' ∉ r.name.toList := by
  unfold check
  cases r.parameters.check with
  | error e => simp
  | ok u =>
      simp only [String.isEmpty_iff, true_and]
      by_cases hempty : r.name = ""
      · simp [hempty]
      · by_cases hlong : maxName < r.name.utf8ByteSize
        · simp only [if_neg hempty, if_pos hlong, reduceCtorEq, false_iff]
          omega
        · by_cases hnul : '\x00' ∈ r.name.toList
          · simp [hempty, hlong, hnul]
          · simp only [if_neg hempty, if_neg hlong, if_neg hnul, true_iff]
            exact ⟨hempty, Nat.le_of_not_lt hlong, hnul⟩

theorem parameters_of_check (h : r.check = .ok ()) : r.parameters.check = .ok () :=
  ((check_eq_ok_iff r).mp h).1

theorem length_name (h : r.check = .ok ()) :
    0 < r.name.toUTF8.toList.length ∧ r.name.toUTF8.toList.length ≤ maxName := by
  obtain ⟨-, hne, hle, -⟩ := (check_eq_ok_iff r).mp h
  rw [length_toUTF8]
  refine ⟨Nat.pos_of_ne_zero fun h0 => hne ?_, hle⟩
  exact String.utf8ByteSize_eq_zero_iff.mp h0

theorem length_toPayload (h : r.check = .ok ()) : r.toPayload.length ≤ Packet.maxPayload := by
  have := (length_name h).2
  simp only [toPayload, List.length_append, length_bigEndian32, Packet.maxPayload, maxName] at *
  omega

/-- A valid request is read back from its payload. -/
theorem ofPayload_toPayload (h : r.check = .ok ()) : ofPayload r.toPayload = .ok r := by
  have hpos := (length_name h).1
  have hname : String.fromUTF8? r.name.toUTF8.toList.toByteArray = some r.name := by
    rw [toByteArray_toList, fromUTF8_toUTF8]
  unfold toPayload
  generalize r.name.toUTF8.toList = bytes at hpos hname
  match bytes, hpos with
  | first :: rest, _ =>
      simp only [bigEndian32, List.cons_append, List.nil_append, ofPayload, hname,
        readBigEndian32_bytes, make]
      rw [show check ⟨⟨r.parameters.window, r.parameters.buffer⟩, r.name⟩ = .ok () from h]
      rfl

theorem make_eq_ok {parameters : Parameters} {name : String}
    (h : make parameters name = .ok r) : r = ⟨parameters, name⟩ ∧ r.check = .ok () := by
  unfold make at h
  cases hc : check ⟨parameters, name⟩ with
  | error e =>
      rw [hc] at h
      simp [Except.map] at h
  | ok u =>
      rw [hc] at h
      simp only [Except.map, Except.ok.injEq] at h
      subst h
      exact ⟨rfl, hc⟩

theorem check_of_ofPayload {payload : Bytes} (h : ofPayload payload = .ok r) : r.check = .ok () := by
  unfold ofPayload at h
  split at h
  · split at h
    · cases h
    · obtain ⟨rfl, hcheck⟩ := make_eq_ok h
      exact hcheck
  · cases h

end FileRequest

namespace Server

/-- A request that arrives as a packet is seen as what it is. -/
theorem request_eq {x : Arrival} {p : Packet} {r : FileRequest} (hp : x.packet = .ok p)
    (hflag : p.flag = .fname) (hpayload : p.payload = r.toPayload) (h : r.check = .ok ()) :
    request x = .ok (some r) := by
  simp only [request, hp, hflag, if_true, hpayload, FileRequest.ofPayload_toPayload h, Except.map]

/-- Only a packet with the flag of a request holds one. -/
theorem flag_of_request {x : Arrival} {r : FileRequest} (h : request x = .ok (some r)) :
    ∃ p, x.packet = .ok p ∧ p.flag = .fname ∧ FileRequest.ofPayload p.payload = .ok r := by
  unfold request at h
  split at h
  · simp at h
  · rename_i p hp
    split at h
    · rename_i hflag
      refine ⟨p, hp, hflag, ?_⟩
      cases hr : FileRequest.ofPayload p.payload with
      | error e =>
          rw [hr] at h
          simp [Except.map] at h
      | ok r' =>
          rw [hr] at h
          simpa [Except.map] using h
    · simp at h

end Server

end SelectiveReject
