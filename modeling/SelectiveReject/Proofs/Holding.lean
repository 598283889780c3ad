import SelectiveReject.ReorderBuffer

/-!
# What the buffer of a receiver holds

`holding seq` is the packet that a buffer holds under a number, whichever slot it is in.  Holding one
more packet and writing the one at `next` change it at one number only, and a flush hands over the run
that starts at `next` and keeps the rest:

```
store data seq   holding seq = some data
wrote data       holding next = none
flush            next moves behind the run, and sink ++ run
```

No operation fails but by leaving its word.
-/

namespace SelectiveReject.ReorderBuffer

variable {b b' : ReorderBuffer} {sink : Sink}

/-- The packet that is held under a number. -/
def holding (b : ReorderBuffer) (seq : Nat) : Option Bytes :=
  if b.next ≤ seq ∧ seq < b.next + b.size then b.slots.get seq else none

theorem size_pos (b : ReorderBuffer) : 0 < b.size := b.slots.nonempty

theorem holding_of_range {seq : Nat} (hlo : b.next ≤ seq) (hhi : seq < b.next + b.size) :
    b.holding seq = b.slots.get seq := if_pos ⟨hlo, hhi⟩

theorem holding_of_far {seq : Nat} (h : b.next + b.size ≤ seq) : b.holding seq = none :=
  if_neg fun hin => by omega

theorem range_of_holding {seq : Nat} {data : Bytes} (h : b.holding seq = some data) :
    b.next ≤ seq ∧ seq < b.next + b.size := by
  unfold holding at h
  split at h
  · assumption
  · cases h

theorem holding_next (b : ReorderBuffer) : b.holding b.next = b.slots.get b.next :=
  holding_of_range (Nat.le_refl _) (Nat.lt_add_of_pos_right b.size_pos)

theorem make_eq {size : Nat} (hpos : 0 < size) (hle : size ≤ 229) :
    make size = .ok ⟨SlotRing.filled size hpos none, 1, 0, 0, .start⟩ := by
  have h : 0 < size ∧ size ≤ Parameters.maxWindow := ⟨hpos, hle⟩
  simp only [make, SlotRing.forWindow, dif_pos h, Except.map, Word.firstNumber]

/-! ## Counting what is held -/

/-- How many slots are taken. -/
def held (b : ReorderBuffer) : Nat := b.slots.slots.countP Option.isSome

theorem held_le_size (b : ReorderBuffer) : b.held ≤ b.size := Array.countP_le_size

/-- A buffer that holds nothing has every slot free. -/
theorem get_of_held_eq_zero (h : b.held = 0) (seq : Nat) : b.slots.get seq = none := by
  unfold held at h
  rw [Array.countP_eq_zero] at h
  have := h (b.slots.get seq) (Array.getElem_mem _)
  simpa using this

theorem held_pos {seq : Nat} {data : Bytes} (h : b.slots.get seq = some data) : 0 < b.held := by
  apply Nat.pos_of_ne_zero
  intro h0
  rw [get_of_held_eq_zero h0] at h
  simp at h

theorem held_set (seq : Nat) (a : Option Bytes) :
    { b with slots := b.slots.set seq a }.held =
      b.held - (if (b.slots.get seq).isSome then 1 else 0) + (if a.isSome then 1 else 0) := by
  unfold held SlotRing.set SlotRing.get
  rw [Array.countP_set]
  rfl

theorem held_new (size : Nat) (hpos : 0 < size) :
    held ⟨SlotRing.filled size hpos none, 1, 0, 0, .start⟩ = 0 := by
  unfold held SlotRing.filled
  rw [Array.countP_replicate]
  rfl

theorem holding_new {size : Nat} (hpos : 0 < size) (seq : Nat) :
    holding ⟨SlotRing.filled size hpos none, 1, 0, 0, .start⟩ seq = none := by
  unfold holding
  rw [SlotRing.get_filled]
  exact ite_self _

/-- Every taken slot is that of one number in range. -/
theorem held_eq (b : ReorderBuffer) : b.held = b.range.countP fun seq => (b.holding seq).isSome := by
  rw [held, ← b.slots.countP_row Option.isSome b.next]
  refine List.countP_congr fun seq hseq => ?_
  obtain ⟨hlo, hhi⟩ := List.mem_range'_1.mp hseq
  rw [holding_of_range hlo hhi]

/-! ## Holding a packet -/

/-- The buffer with one more packet. -/
def store (b : ReorderBuffer) (data : Bytes) (seq : Nat) : ReorderBuffer :=
  { b with slots := b.slots.set seq (some data), pending := b.pending + 1 }

@[simp] theorem next_store (data : Bytes) (seq : Nat) : (b.store data seq).next = b.next := rfl

@[simp] theorem size_store (data : Bytes) (seq : Nat) : (b.store data seq).size = b.size :=
  SlotRing.size_set _ _ _

@[simp] theorem pending_store (data : Bytes) (seq : Nat) :
    (b.store data seq).pending = b.pending + 1 := rfl

theorem holding_store {data : Bytes} {seq : Nat} (hlo : b.next ≤ seq)
    (hhi : seq < b.next + b.size) (s : Nat) :
    (b.store data seq).holding s = if s = seq then some data else b.holding s := by
  by_cases hin : b.next ≤ s ∧ s < b.next + b.size
  · rw [holding_of_range (by simpa using hin.1) (by simpa using hin.2)]
    split
    · rename_i heq
      rw [heq]
      exact SlotRing.get_set_self _ _ _
    · rename_i hne
      have hsize : b.slots.size = b.size := rfl
      rw [holding_of_range hin.1 hin.2]
      exact SlotRing.get_set_near _ (by omega) (by omega) (by omega)
  · rw [if_neg (by omega)]
    unfold holding
    rw [if_neg hin, if_neg (by simpa using hin)]

theorem held_store {data : Bytes} {seq : Nat} (hfree : b.slots.get seq = none) :
    (b.store data seq).held = b.held + 1 := by
  have hset := @held_set b seq (some data)
  rw [hfree] at hset
  exact hset

/-- The counters say what is held, and have room for one more window. -/
structure Roomy (b : ReorderBuffer) : Prop where
  counted : b.pending = b.held
  word : b.next + b.size < limit32

/-- The counters have room for one more packet, and for one more window. -/
structure Spare (b : ReorderBuffer) : Prop where
  word : b.next + b.size < limit32
  counter : b.held < b.size → b.pending + 1 < limit32

theorem Roomy.spare (h : b.Roomy) : b.Spare where
  word := h.word
  counter hheld := by
    have hword := h.word
    have hcounted := h.counted
    omega

/-- A slot is free only if fewer packets are held than there are slots. -/
theorem held_lt_size {seq : Nat} (hfree : b.slots.get seq = none) : b.held < b.size := by
  have hle := (b.store [] seq).held_le_size
  rw [held_store hfree, size_store] at hle
  exact hle

/-- A packet from `next` on is held, or was held before; one from too far ahead is not. -/
theorem add_spare_cases (data : Bytes) {seq : Nat} (hlo : b.next ≤ seq) :
    (∃ a b', b.add data seq = (.error (.abort a), b') ∧ ¬ b.Spare) ∨
      b.add data seq =
        if b.next + b.size ≤ seq then
          (.error (.error (.outsideWindow seq b.next (b.next + b.size))), b)
        else if (b.holding seq).isSome then (.ok .duplicate, b)
        else (.ok .stored, b.store data seq) := by
  unfold add
  by_cases hword : b.next + b.size < limit32
  · rw [Word.plus_of_lt hword]
    by_cases hfar : b.next + b.size ≤ seq
    · right
      simp only [if_pos hfar, if_pos (Or.inr hfar)]
    · have hin : ¬ (seq < b.next ∨ b.next + b.size ≤ seq) := by omega
      have hget : b.holding seq = b.slots.get seq := holding_of_range hlo (by omega)
      simp only [if_neg hfar, if_neg hin, hget]
      by_cases htaken : (b.slots.get seq).isSome = true
      · right
        rw [if_pos htaken, if_pos htaken]
      · rw [if_neg htaken, if_neg htaken]
        by_cases hpending : b.pending + 1 < limit32
        · right
          rw [Word.plus_of_lt hpending]
          rfl
        · left
          rw [Word.plus, if_neg hpending]
          refine ⟨_, _, rfl, fun hspare => hpending (hspare.counter ?_)⟩
          exact held_lt_size (Option.not_isSome_iff_eq_none.mp htaken)
  · left
    rw [Word.plus, if_neg hword]
    exact ⟨_, _, rfl, fun hspare => hword hspare.word⟩

theorem add_cases (data : Bytes) {seq : Nat} (hlo : b.next ≤ seq) :
    (∃ a b', b.add data seq = (.error (.abort a), b') ∧ ¬ b.Roomy) ∨
      b.add data seq =
        if b.next + b.size ≤ seq then
          (.error (.error (.outsideWindow seq b.next (b.next + b.size))), b)
        else if (b.holding seq).isSome then (.ok .duplicate, b)
        else (.ok .stored, b.store data seq) := by
  rcases add_spare_cases data hlo with ⟨a, b', hadd, hnot⟩ | hadd
  · exact Or.inl ⟨a, b', hadd, fun hroomy => hnot hroomy.spare⟩
  · exact Or.inr hadd

/-! ## Writing the run that starts at `next` -/

/-- The buffer after the packet `next` was written. -/
def wrote (b : ReorderBuffer) (data : Bytes) : ReorderBuffer :=
  { b with
    slots := b.slots.set b.next none
    crc := b.crc.update data
    pending := b.pending - 1
    next := b.next + 1 }

@[simp] theorem size_wrote (data : Bytes) : (b.wrote data).size = b.size := SlotRing.size_set _ _ _

/-- The buffer without the packet of a number. -/
def lose (b : ReorderBuffer) (seq : Nat) : ReorderBuffer :=
  { b with slots := b.slots.set seq none }

@[simp] theorem size_lose (seq : Nat) : (b.lose seq).size = b.size := SlotRing.size_set _ _ _

theorem holding_lose {seq : Nat} (hlo : b.next ≤ seq) (hhi : seq < b.next + b.size) (s : Nat) :
    (b.lose seq).holding s = if s = seq then none else b.holding s := by
  have hsize : b.slots.size = b.size := rfl
  have hnext : (b.lose seq).next = b.next := rfl
  by_cases hin : b.next ≤ s ∧ s < b.next + b.size
  · rw [holding_of_range (by omega) (by rw [size_lose]; omega)]
    split
    · rename_i heq
      rw [heq]
      exact SlotRing.get_set_self _ _ _
    · rename_i hne
      rw [holding_of_range hin.1 hin.2]
      exact SlotRing.get_set_near _ (Ne.symm hne) (by omega) (by omega)
  · rw [if_neg (by omega)]
    unfold holding
    rw [if_neg hin, if_neg (by rwa [hnext, size_lose])]

theorem held_lose {seq : Nat} {data : Bytes} (hdata : b.slots.get seq = some data) :
    (b.lose seq).held + 1 = b.held := by
  have hset := @held_set b seq none
  have hpos := held_pos hdata
  rw [hdata] at hset
  show { b with slots := b.slots.set seq none }.held + 1 = b.held
  rw [hset]
  exact Nat.sub_add_cancel hpos

/-- What was held behind `next` still is. -/
theorem holding_wrote (data : Bytes) {seq : Nat} (h : b.next < seq) :
    (b.wrote data).holding seq = b.holding seq := by
  have hsize : b.slots.size = b.size := rfl
  have hnext : (b.wrote data).next = b.next + 1 := rfl
  have hsame : (b.wrote data).size = b.size := size_wrote data
  rcases Nat.lt_trichotomy seq (b.next + b.size) with hlt | rfl | hgt
  · rw [holding_of_range (by omega) hlt, holding_of_range (by omega) (by omega)]
    exact SlotRing.get_set_near _ (by omega) (by omega) (by omega)
  · -- the number that has come into range shares the slot that was emptied
    rw [holding_of_far (Nat.le_refl _), holding_of_range (by omega) (by omega)]
    show (b.slots.set b.next none).get (b.next + b.slots.size) = none
    rw [SlotRing.get_set, if_pos (Nat.add_mod_right _ _).symm]
  · rw [holding_of_far (by omega), holding_of_far (by omega)]

theorem held_wrote {data : Bytes} (hdata : b.slots.get b.next = some data) :
    (b.wrote data).held + 1 = b.held := held_lose hdata

/-- A packet from further on may be lost before the packet `next` is written or after it. -/
theorem lose_wrote (data : Bytes) {seq : Nat} (hlo : b.next < seq) (hhi : seq < b.next + b.size) :
    (b.wrote data).lose seq = (b.lose seq).wrote data := by
  have hsize : b.slots.size = b.size := rfl
  have hne : b.next % b.slots.size ≠ seq % b.slots.size := by
    intro heq
    have := SlotRing.eq_of_mod_eq heq (by omega) (by omega)
    omega
  have hslots := SlotRing.set_comm hne none none
  unfold lose wrote
  simp only [hslots]

/-- The run of packets that starts at `next` has been written: `next` has moved behind it, and what was
held from there on still is. -/
structure Wrote (b : ReorderBuffer) (run : List Bytes) (b' : ReorderBuffer) : Prop where
  next : b'.next = b.next + run.length
  size : b'.size = b.size
  taken : ∀ i, i < run.length → b.holding (b.next + i) = run[i]?
  rest : ∀ seq, b'.next ≤ seq → b'.holding seq = b.holding seq
  stopped : b'.holding b'.next = none
  pending : b'.pending + run.length = b.pending
  held : b'.held + run.length = b.held
  crc : b'.crc = b.crc.update run.flatten

theorem wrote_nothing (h : b.slots.get b.next = none) : b.Wrote [] b where
  next := rfl
  size := rfl
  taken _ hi := absurd hi (Nat.not_lt_zero _)
  rest _ _ := rfl
  stopped := b.holding_next.trans h
  pending := rfl
  held := rfl
  crc := rfl

/-- One packet is written before the rest of the run. -/
theorem Wrote.cons {data : Bytes} {run : List Bytes} (hdata : b.slots.get b.next = some data)
    (hpending : 1 ≤ b.pending) (h : (b.wrote data).Wrote run b') : b.Wrote (data :: run) b' where
  next := by
    rw [h.next, List.length_cons]
    show b.next + 1 + run.length = b.next + (run.length + 1)
    omega
  size := h.size.trans (size_wrote data)
  taken i hi := by
    cases i with
    | zero => exact b.holding_next.trans hdata
    | succ i =>
        have hi' : i < run.length := Nat.lt_of_succ_lt_succ hi
        have htaken := h.taken i hi'
        rw [show (b.wrote data).next + i = b.next + (i + 1) from Nat.succ_add_eq_add_succ _ _,
          holding_wrote data (by omega)] at htaken
        exact htaken
  rest seq hseq := by
    have hnext : b'.next = b.next + 1 + run.length := h.next
    rw [h.rest seq hseq, holding_wrote data (by omega)]
  stopped := h.stopped
  pending := by
    have hmoved : b'.pending + run.length = b.pending - 1 := h.pending
    rw [List.length_cons]
    omega
  held := by
    have hheld := held_wrote hdata
    have hmoved := h.held
    rw [List.length_cons]
    omega
  crc := by
    rw [h.crc, List.flatten_cons, Crc32.update_append]
    rfl

/-- A packet that is lost further on is not in the way of one that is written before. -/
theorem Wrote.cons_lost {data lost : Bytes} {run : List Bytes} (hdata : b.slots.get b.next = some data)
    (hpending : 1 ≤ b.pending) (hlost : (b.wrote data).holding (b.next + 1 + run.length) = some lost)
    (h : ((b.wrote data).lose (b.next + 1 + run.length)).Wrote run b') :
    b.holding (b.next + (run.length + 1)) = some lost ∧
      (b.lose (b.next + (run.length + 1))).Wrote (data :: run) b' := by
  have hplace : b.next + 1 + run.length = b.next + (run.length + 1) := by omega
  rw [hplace] at hlost h
  rw [holding_wrote data (by omega)] at hlost
  have hsize : b.slots.size = b.size := rfl
  have hhi := (range_of_holding hlost).2
  rw [lose_wrote data (by omega) hhi] at h
  refine ⟨hlost, Wrote.cons ?_ hpending h⟩
  show (b.slots.set _ none).get b.next = some data
  rw [SlotRing.get_set_near _ (by omega) (by omega) (by omega), hdata]

/-! One packet of a run: there is none, it is written, the sink does not take it whole, or a counter leaves
its word. -/

section

variable {total count : Nat} {data : Bytes}

theorem writeRun_none (hnone : b.slots.get b.next = none) :
    b.writeRun sink total (count + 1) = (.ok total, b, sink) := by
  simp only [writeRun, hnone]

theorem writeRun_wrote (hdata : b.slots.get b.next = some data) (htakes : sink.Takes data.length)
    (hpending : 1 ≤ b.pending) (hnext : b.next + 1 < limit32) :
    b.writeRun sink total (count + 1) =
      (b.wrote data).writeRun (sink.push data) (total + data.length) count := by
  simp only [writeRun, hdata, Sink.write_of_takes htakes, Word.minus_of_le hpending,
    Word.plus_of_lt hnext]
  rfl

theorem writeRun_lost (hdata : b.slots.get b.next = some data) (hfull : ¬ sink.Takes data.length) :
    b.writeRun sink total (count + 1) = (.error (.error sinkFull), b.lose b.next, sink.fill data) := by
  simp only [writeRun, hdata, Sink.write_of_not_takes hfull]
  rfl

theorem writeRun_abort (hdata : b.slots.get b.next = some data) (htakes : sink.Takes data.length)
    (hnot : ¬ (1 ≤ b.pending ∧ b.next + 1 < limit32)) :
    ∃ a b' sink', b.writeRun sink total (count + 1) = (.error (.abort a), b', sink') := by
  simp only [writeRun, hdata, Sink.write_of_takes htakes]
  by_cases hpending : 1 ≤ b.pending
  · have hnext : ¬ b.next + 1 < limit32 := fun hnext => hnot ⟨hpending, hnext⟩
    rw [Word.plus, if_neg hnext]
    simp only [Word.minus_of_le hpending]
    exact ⟨_, _, _, rfl⟩
  · rw [Word.minus, if_neg hpending]
    exact ⟨_, _, _, rfl⟩

end

/-- A run is written up to the first number that is not held, or else the sink takes only a part of some
packet: then this one is lost, and the run is written up to it. -/
theorem writeRun_cases (count : Nat) : ∀ (b : ReorderBuffer) (sink : Sink) (total : Nat),
    b.held ≤ count →
    (∃ a b' sink', b.writeRun sink total count = (.error (.abort a), b', sink') ∧
        ¬ (b.held ≤ b.pending ∧ b.next + b.held < limit32)) ∨
      (∃ run b', b.writeRun sink total count =
          (.ok (total + run.flatten.length), b', sink.push run.flatten) ∧
        b.Wrote run b' ∧ sink.Takes run.flatten.length ∧ b'.bytesWritten = b.bytesWritten) ∨
      ∃ run lost b', b.writeRun sink total count =
          (.error (.error sinkFull), b', sink.fill (run.flatten ++ lost)) ∧
        b.holding (b.next + run.length) = some lost ∧ (b.lose (b.next + run.length)).Wrote run b' ∧
        sink.Takes run.flatten.length ∧ ¬ sink.Takes (run.flatten.length + lost.length) ∧
        b'.bytesWritten = b.bytesWritten := by
  induction count with
  | zero =>
      intro b sink total hheld
      have hnone := get_of_held_eq_zero (Nat.le_zero.mp hheld) b.next
      exact Or.inr (Or.inl ⟨[], b, by rw [writeRun, List.flatten_nil, Sink.push_nil]; rfl,
        wrote_nothing hnone, fun _ _ => Nat.zero_le _, rfl⟩)
  | succ count ih =>
      intro b sink total hheld
      cases hdata : b.slots.get b.next with
      | none =>
          refine Or.inr (Or.inl ⟨[], b, ?_, wrote_nothing hdata, fun _ _ => Nat.zero_le _, rfl⟩)
          rw [writeRun_none hdata, List.flatten_nil, Sink.push_nil]
          rfl
      | some data =>
          have hpos := held_pos hdata
          have hwrote := held_wrote hdata
          have hpending' : (b.wrote data).pending = b.pending - 1 := rfl
          have hnext' : (b.wrote data).next = b.next + 1 := rfl
          by_cases htakes : sink.Takes data.length
          · by_cases hwords : 1 ≤ b.pending ∧ b.next + 1 < limit32
            · obtain ⟨hpending, hnext⟩ := hwords
              rw [writeRun_wrote hdata htakes hpending hnext]
              rcases ih (b.wrote data) (sink.push data) (total + data.length) (by omega) with
                ⟨a, b', sink', hrun, hnot⟩ | ⟨run, b', hrun, hmoved, hfits, htotal⟩ |
                ⟨run, lost, b', hrun, hlost, hmoved, hfits, hfull, htotal⟩
              · exact Or.inl ⟨a, b', sink', hrun, fun ⟨hcounted, hword⟩ => hnot ⟨by omega, by omega⟩⟩
              · refine Or.inr (Or.inl ⟨data :: run, b', ?_, hmoved.cons hdata hpending, ?_, htotal⟩)
                · rw [List.flatten_cons, List.length_append, ← Nat.add_assoc, ← Sink.push_push]
                  exact hrun
                · rw [List.flatten_cons, List.length_append, ← Sink.takes_push htakes]
                  exact hfits
              · obtain ⟨hlost', hmoved'⟩ := Wrote.cons_lost hdata hpending hlost hmoved
                have hroom : sink.room ≠ none := fun hnone =>
                  hfull (Sink.takes_of_unlimited (by rw [Sink.push, hnone]; rfl) _)
                refine Or.inr (Or.inr ⟨data :: run, lost, b', ?_, hlost', hmoved', ?_, ?_, htotal⟩)
                · rw [List.flatten_cons, List.append_assoc, ← Sink.fill_push htakes hroom]
                  exact hrun
                · rw [List.flatten_cons, List.length_append, ← Sink.takes_push htakes]
                  exact hfits
                · rw [List.flatten_cons, List.length_append, Nat.add_assoc, ← Sink.takes_push htakes]
                  exact hfull
            · obtain ⟨a, b', sink', habort⟩ := writeRun_abort hdata htakes hwords
              exact Or.inl ⟨a, b', sink', habort, fun ⟨hcounted, hword⟩ => hwords ⟨by omega, by omega⟩⟩
          · refine Or.inr (Or.inr ⟨[], data, b.lose b.next, ?_, b.holding_next.trans hdata, ?_,
              fun _ _ => Nat.zero_le _, ?_, rfl⟩)
            · exact writeRun_lost hdata htakes
            · exact wrote_nothing (SlotRing.get_set_self _ _ _)
            · rw [List.flatten_nil, List.length_nil, Nat.zero_add]
              exact htakes

/-- A flush writes the whole run, or loses the packet that the sink does not take whole. -/
theorem flush_any (b : ReorderBuffer) (sink : Sink) :
    (∃ a b' sink', b.flush sink = (.error (.abort a), b', sink') ∧
        ¬ (b.held ≤ b.pending ∧ b.next + b.size < limit32)) ∨
      (∃ run b', b.flush sink = (.ok run.flatten.length, b', sink.push run.flatten) ∧
        b.Wrote run b' ∧ sink.Takes run.flatten.length ∧
        b'.bytesWritten = b.bytesWritten + run.flatten.length) ∨
      ∃ run lost b', b.flush sink = (.error (.error sinkFull), b', sink.fill (run.flatten ++ lost)) ∧
        b.holding (b.next + run.length) = some lost ∧ (b.lose (b.next + run.length)).Wrote run b' ∧
        sink.Takes run.flatten.length ∧ ¬ sink.Takes (run.flatten.length + lost.length) ∧
        b'.bytesWritten = b.bytesWritten := by
  unfold flush
  rcases writeRun_cases b.size b sink 0 b.held_le_size with
    ⟨a, b', sink', hrun, hnot⟩ | ⟨run, b', hrun, hwrote, hfits, htotal⟩ |
    ⟨run, lost, b', hrun, hlost, hwrote, hfits, hfull, htotal⟩
  · left
    rw [hrun]
    refine ⟨a, b', sink', rfl, fun ⟨hcounted, hword⟩ => hnot ⟨hcounted, ?_⟩⟩
    have hheld := b.held_le_size
    omega
  · refine Or.inr (Or.inl ⟨run, { b' with bytesWritten := b'.bytesWritten + run.flatten.length }, ?_,
      ⟨hwrote.next, hwrote.size, hwrote.taken, hwrote.rest, hwrote.stopped, hwrote.pending,
        hwrote.held, hwrote.crc⟩, hfits, ?_⟩)
    · rw [hrun, Nat.zero_add]
    · show b'.bytesWritten + _ = _
      rw [htotal]
  · refine Or.inr (Or.inr ⟨run, lost, b', ?_, hlost, hwrote, hfits, hfull, htotal⟩)
    rw [hrun]

/-- With an unlimited sink a flush writes the whole run. -/
theorem flush_cases (hroom : sink.room = none) :
    (∃ a b' sink', b.flush sink = (.error (.abort a), b', sink') ∧ ¬ b.Roomy) ∨
      ∃ run b' sink', b.flush sink = (.ok run.flatten.length, b', sink') ∧ b.Wrote run b' ∧
        sink'.room = none ∧ sink'.bytes = sink.bytes ++ run.flatten ∧
        b'.bytesWritten = b.bytesWritten + run.flatten.length := by
  rcases b.flush_any sink with
    ⟨a, b', sink', hflush, hnot⟩ | ⟨run, b', hflush, hwrote, -, htotal⟩ |
    ⟨run, lost, b', -, -, -, -, hfull, -⟩
  · refine Or.inl ⟨a, b', sink', hflush, fun hroomy => hnot ⟨?_, hroomy.word⟩⟩
    exact Nat.le_of_eq hroomy.counted.symm
  · refine Or.inr ⟨run, b', _, hflush, hwrote, ?_, sink.bytes_push _, htotal⟩
    rw [Sink.push, hroom]
    rfl
  · exact absurd (Sink.takes_of_unlimited hroom _) hfull

/-! ## What is missing -/

/-- Behind a flush, the least packet that is missing is `next`, if anything is held at all. -/
theorem lowestMissing_cases (hflushed : b.slots.get b.next = none) :
    (∃ a, b.lowestMissing = .error a ∧ ¬ b.next + b.size < limit32) ∨
      ∃ missing, b.lowestMissing = .ok missing ∧ (missing = none ∨ missing = some b.next) ∧
        (b.pending = 0 → missing = none) := by
  by_cases hnone : b.pending = 0
  · refine Or.inr ⟨none, ?_, Or.inl rfl, fun _ => rfl⟩
    rw [lowestMissing, if_pos hnone]
  · by_cases hword : b.next + b.size < limit32
    · right
      obtain ⟨n, hn⟩ : ∃ n, b.size = n + 1 := ⟨b.size - 1, by
        have := b.size_pos
        omega⟩
      have hgap : (b.range.find? fun seq => (b.slots.get seq).isNone) = some b.next := by
        rw [range, hn, List.range'_succ, List.find?_cons, hflushed]
        rfl
      simp only [lowestMissing, if_neg hnone, Word.plus_of_lt hword, Except.map, hgap]
      split
      · exact ⟨_, rfl, Or.inr rfl, fun h0 => absurd h0 hnone⟩
      · exact ⟨_, rfl, Or.inl rfl, fun _ => rfl⟩
    · left
      rw [lowestMissing, if_neg hnone, Word.plus, if_neg hword]
      exact ⟨_, rfl, hword⟩

end SelectiveReject.ReorderBuffer
