import SelectiveReject.Proofs.Framing
import SelectiveReject.Word
import Mathlib.Algebra.GroupWithZero.Nat

/-!
# The arithmetic of the checksum

The accumulator is a 32-bit word, and so is the sum that is folded.  Nothing is lost in either as long as
the data are not longer than 131074 bytes, which are 65537 words:

```
65537 * 0xFFFF = 2 ^ 32 - 1
```

Folding keeps a sum modulo `0xFFFF` and never makes nothing of something, so it ends with the number from
`1` to `0xFFFF` that the sum is congruent to, or with `0` if there was nothing to add.  No more than two
rounds are needed: the first leaves at most `0x1FFFE`.
-/

namespace SelectiveReject.Checksum

/-- The words of the data, high byte first; an odd last byte is the high byte of a last word. -/
def words : Bytes → List Nat
  | a :: b :: rest => (a.toNat * 256 + b.toNat) :: words rest
  | [a] => [a.toNat * 256]
  | [] => []

/-- The greatest length at which the words of any data add up within 32 bits. -/
def longest : Nat := 131074

/-- The loop that starts with `sum` goes round `rounds` times, each time because there are carries, and
leaves `result`.  The additions are checked. -/
inductive Folds : Nat → Nat → Nat → Prop
  | done {sum : Nat} (h : sum ≤ 0xFFFF) : Folds 0 sum sum
  | round {rounds sum next result : Nat} (h : 0xFFFF < sum)
      (hplus : Word.plus (sum % 65536) (sum / 65536) = .ok next) (hnext : Folds rounds next result) :
      Folds (rounds + 1) sum result

/-- What folding leaves of a sum: the number from `1` to `0xFFFF` that it is congruent to, or nothing of
nothing. -/
def Residue (sum f : Nat) : Prop :=
  if sum = 0 then f = 0 else 1 ≤ f ∧ f ≤ 0xFFFF ∧ f % 0xFFFF = sum % 0xFFFF

instance (sum f : Nat) : Decidable (Residue sum f) :=
  inferInstanceAs (Decidable (if sum = 0 then _ else _ ∧ _))

variable {data other : Bytes}

theorem sum_words (data : Bytes) : (words data).sum = wordSum data := by
  fun_induction words data with
  | case1 a b rest ih => rw [List.sum_cons, ih, wordSum]
  | case2 a => rw [List.sum_singleton, wordSum]
  | case3 => rfl

/-- An odd last byte makes the same word as if a zero stood behind it. -/
theorem words_concat_zero (h : data.length % 2 = 1) : words (data ++ [0]) = words data := by
  fun_induction words data with
  | case1 a b rest ih =>
      simp only [List.length_cons] at h
      rw [List.cons_append, List.cons_append, words, ih (by omega)]
  | case2 a => simp only [List.cons_append, List.nil_append, words, UInt8.toNat_zero, Nat.add_zero]
  | case3 => cases h

theorem wordSum_lt (h : data.length ≤ longest) : wordSum data < limit32 := by
  have hsum := wordSum_le data
  simp only [longest, limit32] at *
  omega

/-! ## The accumulator -/

/-- Checked additions go on to the end just when the sum of all is a word. -/
theorem foldlM_plus (ws : List Nat) : ∀ sum, sum < limit32 →
    ws.foldlM Word.plus sum =
      if sum + ws.sum < limit32 then .ok (sum + ws.sum) else .error .overflow := by
  induction ws with
  | nil =>
      intro sum h
      exact (if_pos h).symm
  | cons w ws ih =>
      intro sum h
      rw [List.foldlM_cons, List.sum_cons, ← Nat.add_assoc]
      by_cases hfits : sum + w < limit32
      · rw [Word.plus_of_lt hfits]
        exact ih (sum + w) hfits
      · rw [Word.plus, if_neg hfits, if_neg (by omega)]
        rfl

theorem foldlM_plus_words (h : wordSum data < limit32) :
    (words data).foldlM Word.plus 0 = .ok (accumulate 0 data).toNat := by
  rw [foldlM_plus (words data) 0 (by decide), sum_words, Nat.zero_add, if_pos h, accumulate_exact h]

theorem wordSum_replicate : ∀ n,
    wordSum (List.replicate n 0xFF) = 65535 * (n / 2) + 65280 * (n % 2)
  | 0 => rfl
  | 1 => rfl
  | n + 2 => by
      have hbyte : (0xFF : UInt8).toNat = 255 := rfl
      rw [List.replicate_succ, List.replicate_succ, wordSum, wordSum_replicate n, hbyte]
      omega

/-- One byte more may be too much. -/
theorem foldlM_plus_full {n : Nat} (h : longest < n) :
    (words (List.replicate n 0xFF)).foldlM Word.plus 0 = .error .overflow := by
  have hsum := wordSum_replicate n
  rw [foldlM_plus _ 0 (by decide), sum_words, Nat.zero_add, if_neg]
  simp only [longest, limit32] at *
  omega

/-! ## The folding -/

theorem folds_foldCarries {sum : Nat} (h : sum < limit32) :
    ∃ rounds, rounds ≤ 2 ∧ Folds rounds sum (foldCarries sum) := by
  simp only [limit32] at h
  have hplus : ∀ n, n < 4294967296 → Word.plus (n % 65536) (n / 65536) = .ok (n % 65536 + n / 65536) := by
    intro n hn
    apply Word.plus_of_lt
    simp only [limit32]
    omega
  by_cases hnone : sum ≤ 0xFFFF
  · rw [foldCarries, if_pos hnone]
    exact ⟨0, by decide, .done hnone⟩
  rw [foldCarries, if_neg hnone]
  have hfirst := hplus sum h
  generalize hnext : sum % 65536 + sum / 65536 = next at hfirst ⊢
  by_cases hone : next ≤ 0xFFFF
  · rw [foldCarries, if_pos hone]
    exact ⟨1, by decide, .round (by omega) hfirst (.done hone)⟩
  · have htwo : next % 65536 + next / 65536 ≤ 0xFFFF := by omega
    rw [foldCarries, if_neg hone, foldCarries, if_pos htwo]
    exact ⟨2, by decide, .round (by omega) hfirst (.round (by omega) (hplus next (by omega)) (.done htwo))⟩

theorem residue_foldCarries (sum : Nat) : Residue sum (foldCarries sum) := by
  have hle := foldCarries_le sum
  have hmod := foldCarries_mod sum
  unfold Residue
  split
  · rename_i hzero
    rw [hzero, foldCarries, if_pos (by decide)]
  · have hpos := @foldCarries_pos sum (by omega)
    exact ⟨by omega, hle, hmod⟩

theorem Residue.unique {sum f f' : Nat} (h : Residue sum f) (h' : Residue sum f') : f' = f := by
  unfold Residue at h h'
  split at h
  · rw [if_pos ‹_›] at h'
    omega
  · rw [if_neg ‹_›] at h'
    omega

/-- The checksum is the complement of the residue, and of no other number. -/
theorem residue_iff (h : wordSum data < limit32) (f : Nat) :
    Residue (wordSum data) f ↔ f + (checksum data).toNat = 0xFFFF := by
  have hle := foldCarries_le (wordSum data)
  have hresidue := residue_foldCarries (wordSum data)
  rw [checksum_toNat_of_lt h]
  constructor
  · intro hf
    have heq := hresidue.unique hf
    omega
  · intro hf
    have heq : f = foldCarries (wordSum data) := by omega
    rw [heq]
    exact hresidue

theorem checksum_eq_zero_iff_of_lt (h : wordSum data < limit32) :
    checksum data = 0 ↔ 0 < wordSum data ∧ wordSum data % 0xFFFF = 0 := by
  have hle := foldCarries_le (wordSum data)
  rw [← foldCarries_eq_max_iff, ← UInt16.toNat_inj, checksum_toNat_of_lt h, UInt16.toNat_zero]
  omega

theorem checksum_congr (h : wordSum data < limit32) (hsum : wordSum other = wordSum data) :
    checksum other = checksum data := by
  rw [← UInt16.toNat_inj, checksum_toNat_of_lt (hsum ▸ h), checksum_toNat_of_lt h, hsum]

/-- **Up to 131074 bytes the additions of the checksum are exact, and folding ends after two rounds at
most; the checksum is the complement of the residue of the sum of the words.** -/
theorem checksum_computed :
    (∀ data : Bytes, data.length ≤ longest →
      (words data).foldlM Word.plus 0 = .ok (accumulate 0 data).toNat ∧
      (∃ rounds, rounds ≤ 2 ∧
        Folds rounds (accumulate 0 data).toNat (foldCarries (accumulate 0 data).toNat)) ∧
      (∀ f, Residue (words data).sum f ↔ f + (checksum data).toNat = 0xFFFF) ∧
      (∀ other, (words other).Perm (words data) → checksum other = checksum data) ∧
      (data.length % 2 = 1 → checksum (data ++ [0]) = checksum data) ∧
      (checksum data = 0 ↔ 0 < (words data).sum ∧ (words data).sum % 0xFFFF = 0)) ∧
    ∀ n, longest < n → ∃ data : Bytes, data.length = n ∧
      (words data).foldlM Word.plus 0 = .error .overflow := by
  refine ⟨fun data hlength => ?_, fun n hn => ?_⟩
  · have hlt := wordSum_lt hlength
    have hperm : ∀ other, (words other).Perm (words data) → checksum other = checksum data := by
      intro other h
      apply checksum_congr hlt
      rw [← sum_words, ← sum_words, h.sum_nat]
    rw [sum_words, accumulate_exact hlt]
    refine ⟨?_, folds_foldCarries hlt, residue_iff hlt, hperm, ?_, checksum_eq_zero_iff_of_lt hlt⟩
    · rw [foldlM_plus_words hlt, accumulate_exact hlt]
    · intro hodd
      exact hperm _ (.of_eq (words_concat_zero hodd))
  · exact ⟨List.replicate n 0xFF, List.length_replicate, foldlM_plus_full hn⟩

/-- The words `0x1234`, `0xFF00`, with a carry. -/
def oddBytes : Bytes := [0x12, 0x34, 0xFF]

/-- One round is made for three bytes; the order of their two words makes no difference, nor does a zero
behind them.  The longest data of all are still added up without overflow, and one byte more is not. -/
theorem oddBytes_computed :
    oddBytes.length ≤ longest ∧ (checksum oddBytes).toNat = 0xFFFF - 0x1135 ∧
      checksum [0xFF, 0x00, 0x12, 0x34] = checksum oddBytes ∧
      checksum (oddBytes ++ [0]) = checksum oddBytes ∧ checksum oddBytes ≠ 0 ∧
      ∃ data : Bytes, data.length = 131075 ∧ (words data).foldlM Word.plus 0 = .error .overflow := by
  obtain ⟨hcomputed, hlonger⟩ := checksum_computed
  have hlength : oddBytes.length ≤ longest := by decide
  obtain ⟨-, -, hresidue, hperm, hzero, hintact⟩ := hcomputed oddBytes hlength
  have hfolded := (hresidue 0x1135).mp (by decide)
  refine ⟨hlength, by omega, hperm _ (List.Perm.swap _ _ _), hzero rfl, fun h => ?_, hlonger 131075 (by decide)⟩
  exact absurd (hintact.mp h) (by decide)

end SelectiveReject.Checksum
