import SelectiveReject.Proofs.Breakage

/-!
# The least packet that is missing

A gap is the least number from `next` on that is not held, if a greater one is held:

```
lowestMissing = some gap    gap is that number
lowestMissing = none        the numbers that are held are those from next to next + count - 1
```

The answer is looked up in the slots, but not when `pending` is zero.  A flush that fails leaves a packet
counted that is not held, and so does each further one.  The shortcut needs only that no packet is held
that is not counted, and this is what every call keeps, however many flushes have failed.
-/

namespace SelectiveReject.ReorderBuffer

/-- The least number from `next` on that is not held. -/
structure FirstFree (b : ReorderBuffer) (seq : Nat) : Prop where
  reached : b.next ≤ seq
  missing : b.holding seq = none
  least : ∀ other, b.next ≤ other → other < seq → (b.holding other).isSome

/-- This number, when a greater one is held. -/
structure Gap (b : ReorderBuffer) (gap : Nat) : Prop extends FirstFree b gap where
  beyond : ∃ seq, gap < seq ∧ (b.holding seq).isSome

/-- What is held is one run that starts at `next`, and may be empty. -/
def Gapless (b : ReorderBuffer) : Prop :=
  ∃ count, ∀ seq, (b.holding seq).isSome ↔ b.next ≤ seq ∧ seq < b.next + count

variable {b b' : ReorderBuffer} {sink : Sink} {size gap other : Nat}

theorem FirstFree.le (h : b.FirstFree gap) (h' : b.FirstFree other) : gap ≤ other := by
  refine Nat.le_of_not_lt fun hlt => ?_
  have hheld := h.least other h'.reached hlt
  rw [h'.missing] at hheld
  cases hheld

theorem FirstFree.eq (h : b.FirstFree gap) (h' : b.FirstFree other) : gap = other :=
  Nat.le_antisymm (h.le h') (h'.le h)

/-- Where there is a gap, what is held is not one run. -/
theorem Gap.not_gapless (h : b.Gap gap) : ¬ b.Gapless := by
  rintro ⟨count, hrun⟩
  obtain ⟨seq, hlt, hheld⟩ := h.beyond
  have hend := ((hrun seq).mp hheld).2
  have hheld' := (hrun gap).mpr ⟨h.reached, by omega⟩
  rw [h.missing] at hheld'
  cases hheld'

/-! ## Looking it up -/

theorem get_eq_holding {seq : Nat} (hseq : seq ∈ b.range) : b.slots.get seq = b.holding seq := by
  obtain ⟨hlo, hhi⟩ := List.mem_range'_1.mp hseq
  exact (holding_of_range hlo hhi).symm

theorem mem_range_of_isSome {seq : Nat} (h : (b.holding seq).isSome) : seq ∈ b.range := by
  obtain ⟨data, hdata⟩ := Option.isSome_iff_exists.mp h
  exact List.mem_range'_1.mpr (range_of_holding hdata)

/-- If no slot is free, the run fills the buffer. -/
theorem gapless_of_full (h : (b.range.find? fun seq => (b.slots.get seq).isNone) = none) : b.Gapless := by
  refine ⟨b.size, fun seq => ⟨fun hheld => ?_, fun hin => ?_⟩⟩
  · exact List.mem_range'_1.mp (mem_range_of_isSome hheld)
  · have hseq : seq ∈ b.range := List.mem_range'_1.mpr hin
    have htaken := List.find?_eq_none.mp h seq hseq
    rwa [Option.isNone_iff_eq_none, get_eq_holding hseq, ← ne_eq, ← Option.isSome_iff_ne_none] at htaken

/-- The first slot that is free is that of the first number. -/
theorem firstFree_of_find (h : (b.range.find? fun seq => (b.slots.get seq).isNone) = some gap) :
    b.FirstFree gap := by
  obtain ⟨hfree, hgap, hbefore⟩ := List.find?_range'_eq_some.mp h
  obtain ⟨hlo, hhi⟩ := List.mem_range'_1.mp hgap
  refine ⟨hlo, ?_, fun seq hseq hlt => ?_⟩
  · rw [← get_eq_holding hgap]
    exact Option.isNone_iff_eq_none.mp hfree
  · have htaken := hbefore seq hseq hlt
    rw [get_eq_holding (List.mem_range'_1.mpr ⟨hseq, Nat.lt_trans hlt hhi⟩)] at htaken
    simpa using htaken

theorem any_beyond_iff (gap : Nat) :
    (b.range.any fun seq => gap < seq && (b.slots.get seq).isSome) = true ↔
      ∃ seq, gap < seq ∧ (b.holding seq).isSome := by
  rw [List.any_eq_true]
  constructor
  · rintro ⟨seq, hin, hseq⟩
    rw [Bool.and_eq_true, decide_eq_true_iff, get_eq_holding hin] at hseq
    exact ⟨seq, hseq⟩
  · rintro ⟨seq, hlt, hheld⟩
    have hin := mem_range_of_isSome hheld
    refine ⟨seq, hin, ?_⟩
    rw [Bool.and_eq_true, decide_eq_true_iff, get_eq_holding hin]
    exact ⟨hlt, hheld⟩

/-- If nothing is held behind the first number that is not, the run ends there. -/
theorem FirstFree.gapless (h : b.FirstFree gap) (hend : ¬ ∃ seq, gap < seq ∧ (b.holding seq).isSome) :
    b.Gapless := by
  refine ⟨gap - b.next, fun seq => ⟨fun hheld => ?_, fun hin => h.least seq hin.1 (by omega)⟩⟩
  obtain ⟨hseq, -⟩ := List.mem_range'_1.mp (mem_range_of_isSome hheld)
  have hne : seq ≠ gap := by
    rintro rfl
    rw [h.missing] at hheld
    cases hheld
  have hnot : ¬ gap < seq := fun hlt => hend ⟨seq, hlt, hheld⟩
  omega

theorem gapless_of_held_eq_zero (h : b.held = 0) : b.Gapless := by
  refine ⟨0, fun seq => ?_⟩
  have hempty := get_of_held_eq_zero h seq
  unfold holding
  rw [hempty, ite_self]
  exact ⟨fun hheld => (by cases hheld), fun hin => by omega⟩

/-- What is looked up is a gap, and if there is none, what is held is one run. -/
theorem lowestMissing_spec (hcovered : b.held ≤ b.pending) (hword : b.next + b.size < limit32) :
    ∃ missing, b.lowestMissing = .ok missing ∧ (∀ gap, missing = some gap → b.Gap gap) ∧
      (missing = none → b.Gapless) := by
  by_cases hpending : b.pending = 0
  · have hheld : b.held = 0 := Nat.le_zero.mp (hpending ▸ hcovered)
    refine ⟨none, ?_, fun gap h => (by cases h), fun _ => gapless_of_held_eq_zero hheld⟩
    rw [lowestMissing, if_pos hpending]
  · simp only [lowestMissing, if_neg hpending, Word.plus_of_lt hword, Except.map]
    refine ⟨_, rfl, ?_⟩
    cases hfind : b.range.find? fun seq => (b.slots.get seq).isNone with
    | none => exact ⟨fun gap h => (by cases h), fun _ => gapless_of_full hfind⟩
    | some gap =>
        have hfree := firstFree_of_find hfind
        dsimp only
        split
        · rename_i hbeyond
          refine ⟨fun g hg => ?_, fun h => by cases h⟩
          obtain rfl := Option.some.inj hg
          exact ⟨hfree, (any_beyond_iff _).mp hbeyond⟩
        · rename_i hend
          refine ⟨fun g hg => (by cases hg), fun _ => ?_⟩
          exact hfree.gapless fun hbeyond => hend ((any_beyond_iff _).mpr hbeyond)

/-- A gap is found just when there is one. -/
theorem lowestMissing_exact (hcovered : b.held ≤ b.pending) (hword : b.next + b.size < limit32) :
    ∃ missing, b.lowestMissing = .ok missing ∧ (∀ gap, missing = some gap ↔ b.Gap gap) ∧
      (missing = none ↔ b.Gapless) := by
  obtain ⟨missing, hfound, hgap, hrun⟩ := lowestMissing_spec hcovered hword
  refine ⟨missing, hfound, fun gap => ⟨hgap gap, fun h => ?_⟩, hrun, fun h => ?_⟩
  · cases missing with
    | none => exact absurd (hrun rfl) h.not_gapless
    | some found => rw [(hgap found rfl).toFirstFree.eq h.toFirstFree]
  · cases missing with
    | none => rfl
    | some found => exact absurd h (hgap found rfl).not_gapless

theorem firstFree_next (hstopped : b.holding b.next = none) : b.FirstFree b.next :=
  ⟨Nat.le_refl _, hstopped, fun _ hlo hhi => absurd hlo (Nat.not_le_of_lt hhi)⟩

/-- Where the packet `next` is not held, this is the gap as soon as any packet is held. -/
theorem gap_next_iff (hstopped : b.holding b.next = none) : b.Gap b.next ↔ 0 < b.held := by
  rw [held_eq, List.countP_pos_iff]
  constructor
  · intro h
    obtain ⟨seq, -, hheld⟩ := h.beyond
    exact ⟨seq, mem_range_of_isSome hheld, hheld⟩
  · rintro ⟨seq, hseq, hheld⟩
    refine ⟨firstFree_next hstopped, seq, ?_, hheld⟩
    refine Nat.lt_of_le_of_ne (List.mem_range'_1.mp hseq).1 ?_
    rintro rfl
    rw [hstopped] at hheld
    cases hheld

/-! ## What every call keeps -/

/-- No packet is held that is not counted. -/
structure Covers (size : Nat) (b : ReorderBuffer) : Prop where
  size_eq : b.size = size
  covered : b.held ≤ b.pending

theorem covers_new (hpos : 0 < size) :
    Covers size ⟨SlotRing.filled size hpos none, 1, 0, 0, .start⟩ where
  size_eq := SlotRing.size_filled _ hpos _
  covered := Nat.le_of_eq (held_new size hpos)

/-- A packet that is held is counted, or the counter is at its end, and then is greater than any number of
slots. -/
theorem Covers.add (h : Covers size b) (hle : size ≤ 229) (data : Bytes) (seq : Nat) :
    Covers size (b.add data seq).2 := by
  unfold ReorderBuffer.add
  split
  · exact h
  · split
    · exact h
    · split
      · exact h
      · rename_i htaken
        have hfree := Option.not_isSome_iff_eq_none.mp htaken
        have hsize := (size_store data seq).trans h.size_eq
        have hheld : (b.store data seq).held = b.held + 1 := held_store hfree
        dsimp only
        by_cases hpending : b.pending + 1 < limit32
        · rw [Word.plus_of_lt hpending]
          refine ⟨hsize, ?_⟩
          have hcovered := h.covered
          show (b.store data seq).held ≤ b.pending + 1
          omega
        · rw [Word.plus, if_neg hpending]
          refine ⟨hsize, ?_⟩
          have hmost := (b.store data seq).held_le_size
          show (b.store data seq).held ≤ b.pending
          rw [size_store, h.size_eq] at hmost
          have hlimit : limit32 = 4294967296 := rfl
          omega

/-- Every call keeps this. -/
theorem Covers.perform (h : Covers size b) (hle : size ≤ 229) (hword : b.next + b.size < limit32)
    (call : Call) : Covers size (b.perform sink call).2.1 := by
  cases call with
  | add data seq => exact h.add hle data seq
  | flush room =>
      have hcovered := h.covered
      rcases perform_flush hcovered hword sink room with
        ⟨run, b', sink', hflush, hwrote, -⟩ | ⟨n, run, lost, b', sink', hflush, hbroke, -⟩
      · rw [hflush]
        refine ⟨hwrote.size.trans h.size_eq, ?_⟩
        have hpending := hwrote.pending
        have hheld := hwrote.held
        show b'.held ≤ b'.pending
        omega
      · rw [hflush]
        refine ⟨hbroke.size.trans h.size_eq, ?_⟩
        have hpending := hbroke.pending
        have hheld := hbroke.held
        show b'.held ≤ b'.pending
        omega

/-- So does one call after the other. -/
theorem Covers.run (h : Covers size b) (hle : size ≤ 229) {calls : List Call}
    (hword : b.InWord sink calls) : Covers size (b.run sink calls).2.1 := by
  induction calls generalizing b sink with
  | nil => exact h
  | cons call rest ih => exact ih (h.perform hle hword.1 call) hword.2

/-! ## What is missing -/

/-- A buffer that has answered calls finds what is missing in it. -/
structure Surveyed (answers : List Answer) (b : ReorderBuffer) : Prop where
  /-- The answer is the gap, and there is none just when what is held is one run. -/
  missing : b.next + b.size < limit32 → ∃ missing, b.lowestMissing = .ok missing ∧
    (∀ gap, missing = some gap ↔ b.Gap gap) ∧ (missing = none ↔ b.Gapless)
  /-- If no flush has failed, a flush that does not fail leaves `next` missing, unless it leaves nothing. -/
  flushed : b.next + b.size < limit32 → failures answers = 0 → ∀ sink room count b' sink',
    b.perform sink (.flush room) = (.flushed (.ok count), b', sink') → b'.next + b'.size < limit32 →
      (b'.lowestMissing = .ok (some b'.next) ↔ 0 < b'.pending)

/-- **Whatever a buffer is asked, what it says to be missing is the least number that is not held while a
greater one is.** -/
theorem gaps_found (hpos : 1 ≤ size) (hle : size ≤ 229) : ∃ b, make size = .ok b ∧
    ∀ calls, b.InWord {} calls → Surveyed (b.run {} calls).1 (b.run {} calls).2.1 := by
  obtain ⟨b, hmake, hkept⟩ := kept_of_run hpos hle
  have hnew := make_eq hpos hle
  refine ⟨b, hmake, fun calls hword => ⟨fun hnumbers => ?_, ?_⟩⟩
  · rw [hnew] at hmake
    cases hmake
    exact lowestMissing_exact ((covers_new hpos).run hle hword).covered hnumbers
  · intro hnumbers hnone sink room count b' sink' hflush hnumbers'
    have h := hkept calls hword (by rw [hnone, limit32]; omega)
    rcases perform_flush h.covered hnumbers sink room with
      ⟨run, b'', sink'', hother, hwrote, -, -, htotal⟩ | ⟨n, run, lost, b'', sink'', hother, -⟩
    · cases hflush.symm.trans hother
      have hleft := h.wrote hwrote htotal
      obtain ⟨missing, hfound, hgap, -⟩ := lowestMissing_exact hleft.covered hnumbers'
      rw [hleft.counted, hnone, Nat.add_zero, ← gap_next_iff hwrote.stopped, ← hgap, hfound]
      simp
    · cases hflush.symm.trans hother

/-- The first packet is lost, and the third waits for it. -/
def lostCalls : List Call := [.add [3] 3, .add [1] 1, .flush (some 0)]

/-- Of the three numbers that may be held, only the third is, and two packets are counted. -/
theorem lost_found : ∃ b, make 3 = .ok b ∧ b.InWord {} lostCalls ∧
    Surveyed (b.run {} lostCalls).1 (b.run {} lostCalls).2.1 ∧ (b.run {} lostCalls).2.1.Gap 1 ∧
    (b.run {} lostCalls).2.1.lowestMissing = .ok (some 1) ∧ (b.run {} lostCalls).2.1.pending = 2 ∧
    (b.run {} lostCalls).2.1.held = 1 := by
  obtain ⟨b, hmake, hrun⟩ := @gaps_found 3 (by decide) (by decide)
  have hwords : b.InWord {} lostCalls := by
    cases hmake
    decide
  have h := hrun lostCalls hwords
  have hanswer : (b.run {} lostCalls).2.1.lowestMissing = .ok (some 1) := by
    cases hmake
    rfl
  refine ⟨b, hmake, hwords, h, ?_, hanswer, ?_⟩
  · obtain ⟨missing, hfound, hgap, -⟩ := h.missing (by
      cases hmake
      decide)
    rw [hanswer] at hfound
    exact (hgap 1).mp (Except.ok.inj hfound).symm
  · cases hmake
    exact ⟨rfl, rfl⟩

end SelectiveReject.ReorderBuffer
