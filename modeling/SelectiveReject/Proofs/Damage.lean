import SelectiveReject.Proofs.Codec

/-!
# Damage within one word

The checksum knows of a datagram only the sum of its words, modulo `0xFFFF`, and whether any of them is
positive.  Damage within one word changes the sum by the difference of two words, which is less than
`0xFFFF` unless one zero has become the other:

```
0x0000 → 0xFFFF    the datagram passes the check again
0xFFFF → 0x0000    so it does, unless no word is left that is positive
any other change   decode says corrupt
```

A byte that is damaged leaves the other byte of its word, and an odd last byte has a zero beside it, so
damage of one byte never makes one zero of the other.
-/

namespace SelectiveReject

namespace Checksum

/-- A word of the data; bytes that are not there count as zero. -/
def word (data : Bytes) (i : Nat) : Nat :=
  (data.getD (2 * i) 0).toNat * 256 + (data.getD (2 * i + 1) 0).toNat

/-- Two strings of bytes of the same length that differ at most within one word. -/
structure SameBut (i : Nat) (x y : Bytes) : Prop where
  length : y.length = x.length
  elsewhere : ∀ k, k / 2 ≠ i → y[k]? = x[k]?

/-- One zero stands for the other. -/
def Exchanged (w w' : Nat) : Prop := w = 0 ∧ w' = 0xFFFF ∨ w = 0xFFFF ∧ w' = 0

variable {i : Nat} {x y : Bytes} {a b : UInt8}

theorem word_le (data : Bytes) (i : Nat) : word data i ≤ 0xFFFF := by
  have := (data.getD (2 * i) 0).toNat_lt
  have := (data.getD (2 * i + 1) 0).toNat_lt
  unfold word
  omega

theorem word_cons_cons (rest : Bytes) (i : Nat) : word (a :: b :: rest) (i + 1) = word rest i := by
  simp only [word, show 2 * (i + 1) = 2 * i + 2 by omega, List.getD_cons_succ]

theorem SameBut.tail {a' b' : UInt8} (h : SameBut (i + 1) (a :: b :: x) (a' :: b' :: y)) :
    SameBut i x y where
  length := by simpa using h.length
  elsewhere k hk := h.elsewhere (k + 2) (by omega)

/-- Damage of one word changes the sum by as much as the word. -/
theorem wordSum_sameBut (x : Bytes) : ∀ (i : Nat) (y : Bytes), SameBut i x y →
    wordSum y + word x i = wordSum x + word y i := by
  fun_induction wordSum x with
  | case1 a b rest ih =>
      intro i y h
      obtain ⟨a', y', rfl⟩ := List.exists_cons_of_length_eq_add_one h.length
      obtain ⟨b', rest', rfl⟩ := List.exists_cons_of_length_eq_add_one (Nat.succ.inj h.length)
      cases i with
      | zero =>
          have hrest : rest' = rest := List.ext_getElem? fun k => h.elsewhere (k + 2) (by omega)
          simp only [hrest, wordSum, word, Nat.mul_zero, Nat.zero_add, List.getD_cons_zero,
            List.getD_cons_succ]
          omega
      | succ i =>
          have hhigh : a' = a := Option.some.inj (h.elsewhere 0 (by omega))
          have hlow : b' = b := Option.some.inj (h.elsewhere 1 (by omega))
          have hsum := ih i rest' h.tail
          rw [word_cons_cons, word_cons_cons, wordSum, hhigh, hlow]
          omega
  | case2 a =>
      intro i y h
      obtain ⟨a', y', rfl⟩ := List.exists_cons_of_length_eq_add_one h.length
      obtain rfl := List.eq_nil_of_length_eq_zero (Nat.succ.inj h.length)
      cases i with
      | zero =>
          simp only [wordSum, word, Nat.mul_zero, Nat.zero_add, List.getD_cons_zero,
            List.getD_cons_succ, List.getD_nil]
          omega
      | succ i =>
          have hhigh : a' = a := Option.some.inj (h.elsewhere 0 (by omega))
          rw [hhigh]
          rfl
  | case3 =>
      intro i y h
      obtain rfl := List.eq_nil_of_length_eq_zero h.length
      rfl

/-- It is the word that tells the two apart. -/
theorem SameBut.eq (h : SameBut i x y) (hword : word y i = word x i) : y = x := by
  have hbyte : ∀ k, y.getD k 0 = x.getD k 0 → y[k]? = x[k]? := by
    intro k hk
    rw [List.getD_eq_getElem?_getD, List.getD_eq_getElem?_getD] at hk
    have hlength := h.length
    by_cases hlt : k < x.length
    · have hlt' : k < y.length := by omega
      rw [List.getElem?_eq_getElem hlt, List.getElem?_eq_getElem hlt'] at hk ⊢
      exact congrArg some hk
    · rw [List.getElem?_eq_none (by omega), List.getElem?_eq_none (by omega)]
  have hhigh := (x.getD (2 * i) 0).toNat_lt
  have hhigh' := (y.getD (2 * i) 0).toNat_lt
  have hlow := (x.getD (2 * i + 1) 0).toNat_lt
  have hlow' := (y.getD (2 * i + 1) 0).toNat_lt
  unfold word at hword
  refine List.ext_getElem? fun k => ?_
  by_cases hk : k / 2 = i
  · have hplace : k = 2 * i ∨ k = 2 * i + 1 := by omega
    rcases hplace with rfl | rfl
    · exact hbyte _ (UInt8.toNat_inj.mp (by omega))
    · exact hbyte _ (UInt8.toNat_inj.mp (by omega))
  · exact h.elsewhere k hk

/-- Only zeros add up to nothing. -/
theorem wordSum_eq_zero_iff (data : Bytes) : wordSum data = 0 ↔ ∀ b ∈ data, b = 0 := by
  have hzero : ∀ b : UInt8, b = 0 ↔ b.toNat = 0 := fun b => UInt8.toNat_inj.symm
  fun_induction wordSum data with
  | case1 a b rest ih =>
      rw [List.forall_mem_cons, List.forall_mem_cons, hzero, hzero]
      constructor
      · intro hsum
        exact ⟨by omega, by omega, ih.mp (by omega)⟩
      · rintro ⟨ha, hb, hrest⟩
        have hsum := ih.mpr hrest
        omega
  | case2 a =>
      rw [List.forall_mem_singleton, hzero]
      omega
  | case3 => simp

/-- Which damage of one word a datagram that was intact survives. -/
theorem checksum_sameBut_iff (hx : x.length ≤ receiveLimit) (hvalid : checksum x = 0)
    (h : SameBut i x y) (hne : y ≠ x) :
    checksum y = 0 ↔ Exchanged (word x i) (word y i) ∧ ¬ ∀ b ∈ y, b = 0 := by
  have hsum := wordSum_sameBut x i y h
  have hle := word_le x i
  have hle' := word_le y i
  have hword : word y i ≠ word x i := fun heq => hne (h.eq heq)
  have hy : y.length ≤ receiveLimit := h.length ▸ hx
  rw [checksum_eq_zero_iff hx] at hvalid
  rw [checksum_eq_zero_iff hy, ← wordSum_eq_zero_iff]
  unfold Exchanged
  omega

end Checksum

namespace Packet

open Checksum

variable {x y : Bytes} {i : Nat}

theorem decode_sameBut_iff (hmin : headerLength ≤ x.length) (hmax : x.length ≤ receiveLimit)
    (hvalid : checksum x = 0) (h : SameBut i x y) (hne : y ≠ x) :
    decode y = .error .corrupt ↔ ¬ Exchanged (word x i) (word y i) ∨ ∀ b ∈ y, b = 0 := by
  rw [decode_eq_corrupt_iff, h.length, ne_eq, checksum_sameBut_iff hmax hvalid h hne,
    Classical.not_and_iff_not_or_not, Classical.not_not]
  exact and_iff_right hmin

/-- **Damage within one word is found out, unless it makes one zero of the other.** -/
theorem word_damage_found (hmin : headerLength ≤ x.length) (hmax : x.length ≤ receiveLimit)
    (hvalid : checksum x = 0) :
    (∀ i y, SameBut i x y → y ≠ x →
      (decode y = .error .corrupt ↔ ¬ Exchanged (word x i) (word y i) ∨ ∀ b ∈ y, b = 0)) ∧
    ∀ i mask, i < x.length → mask ≠ 0 → decode (x.modify i (· ^^^ mask)) = .error .corrupt :=
  ⟨fun _ _ => decode_sameBut_iff hmin hmax hvalid,
    fun _ _ hi hmask => decode_xor hmin hmax hvalid hi hmask⟩

/-- The checksum field is a word of its own. -/
theorem sameBut_frameWith (p : Packet) (c c' : UInt16) : SameBut 2 (p.frameWith c) (p.frameWith c') where
  length := rfl
  elsewhere k hk := by
    match k, hk with
    | 0, _ | 1, _ | 2, _ | 3, _ => rfl
    | 4, hk | 5, hk => exact absurd rfl hk
    | k + 6, _ => rfl

/-- A packet with a zero checksum is intact with the other zero as well, and with no other checksum; nor is
it when two bits of its last byte are turned over. -/
theorem fullPacket_damage : checksum fullPacket.frame = 0 ∧
    decode (fullPacket.frameWith 0xFFFF) ≠ .error .corrupt ∧
    decode (fullPacket.frameWith 0xFF00) = .error .corrupt ∧
    decode (fullPacket.frame.modify 8 (· ^^^ 3)) = .error .corrupt := by
  have hvalid : checksum fullPacket.frame = 0 := by decide +kernel
  have hfield : checksum (fullPacket.frameWith 0) = 0 := by decide +kernel
  obtain ⟨hword, hbyte⟩ := word_damage_found (x := fullPacket.frame) (by decide) (by decide) hvalid
  have hsame : ∀ c, SameBut 2 fullPacket.frame (fullPacket.frameWith c) := sameBut_frameWith fullPacket _
  refine ⟨hvalid, fun hcorrupt => ?_, ?_, hbyte 8 3 (by decide) (by decide)⟩
  · have hnot := (hword 2 _ (hsame 0xFFFF) (by decide +kernel)).mp hcorrupt
    revert hnot
    unfold Exchanged
    decide +kernel
  · refine (hword 2 _ (hsame 0xFF00) (by decide +kernel)).mpr (Or.inl ?_)
    unfold Exchanged
    decide +kernel

end Packet

end SelectiveReject
