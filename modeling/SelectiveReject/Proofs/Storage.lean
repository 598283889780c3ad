import SelectiveReject.Proofs.Holding
import SelectiveReject.Proofs.Lists

/-!
# A buffer in any hands

A session flushes its buffer whenever the packet at `next` has come.  Here packets are added in any order,
under any numbers, with other bytes when they come again, and a flush may happen at any moment.  What was
stored is taken down from the answers, and everything else is decided by this record:

```
sink                     record 1 ++ record 2 ++ … ++ record (next - 1)
slot seq                 record seq                 next ≤ seq < next + size
add data seq             outsideWindow              seq < next or next + size ≤ seq
                         duplicate                  record seq is there
                         stored                     otherwise
```

No number is stored twice.  A slot says only whether it is taken, not by which number, but its number in
range is the only one that can have taken it.
-/

namespace SelectiveReject.ReorderBuffer

/-- What a buffer can be asked.  The sink of a flush takes `room` bytes before it fails, or never fails. -/
inductive Call where
  | add (data : Bytes) (seq : Nat)
  | flush (room : Option Nat)
  deriving DecidableEq

inductive Answer where
  | added (result : Except Stop Added)
  | flushed (result : Except Stop Nat)

/-- The answer to a call, and the buffer and the sink it leaves. -/
def perform (b : ReorderBuffer) (sink : Sink) : Call → Answer × ReorderBuffer × Sink
  | .add data seq => (.added (b.add data seq).1, (b.add data seq).2, sink)
  | .flush room => Prod.map .flushed id (b.flush { sink with room := room })

/-- Makes one call after the other. -/
def run (b : ReorderBuffer) (sink : Sink) : List Call → List Answer × ReorderBuffer × Sink
  | [] => ([], b, sink)
  | call :: rest =>
      let (answer, b, sink) := b.perform sink call
      let (answers, b, sink) := b.run sink rest
      (answer :: answers, b, sink)

/-- What a call has stored, by its answer. -/
def entry : Call → Answer → List (Nat × Bytes)
  | .add data seq, .added (.ok .stored) => [(seq, data)]
  | _, _ => []

/-- What was stored, with its numbers, in the order of the calls. -/
def stored (calls : List Call) (answers : List Answer) : List (Nat × Bytes) :=
  (List.zipWith entry calls answers).flatten

/-- The sink of a flush takes everything. -/
def Call.Steady : Call → Prop
  | .add _ _ => True
  | .flush room => room = none

instance : (call : Call) → Decidable call.Steady
  | .add _ _ => inferInstanceAs (Decidable True)
  | .flush _ => inferInstanceAs (Decidable (_ = _))

/-- No sink fails, and the numbers that may be held fit their word. -/
def Call.Fits (b : ReorderBuffer) (call : Call) : Prop := call.Steady ∧ b.next + b.size < limit32

instance (b : ReorderBuffer) (call : Call) : Decidable (call.Fits b) :=
  inferInstanceAs (Decidable (_ ∧ _))

def AllFit (b : ReorderBuffer) (sink : Sink) : List Call → Prop
  | [] => True
  | call :: rest =>
      call.Fits b ∧ (b.perform sink call).2.1.AllFit (b.perform sink call).2.2 rest

instance decidableAllFit :
    (calls : List Call) → (b : ReorderBuffer) → (sink : Sink) → Decidable (b.AllFit sink calls)
  | [], _, _ => inferInstanceAs (Decidable True)
  | call :: rest, b, sink =>
      have := decidableAllFit rest (b.perform sink call).2.1 (b.perform sink call).2.2
      inferInstanceAs (Decidable (_ ∧ _))

variable {b b' : ReorderBuffer} {sink sink' : Sink} {record : List (Nat × Bytes)} {size : Nat}

/-! ## What every call keeps -/

/-- A buffer and its sink have what was stored: the packets before `next` are written, the others held. -/
structure Recorded (record : List (Nat × Bytes)) (b : ReorderBuffer) (sink : Sink) : Prop where
  first : 1 ≤ b.next
  counted : b.pending = b.held
  once : (record.map Prod.fst).Nodup
  ahead : ∀ seq, b.next ≤ seq → record.lookup seq = b.holding seq
  output : ∃ pieces : List Bytes, (List.range' 1 (b.next - 1)).map (record.lookup ·) = pieces.map some ∧
    sink.bytes = pieces.flatten
  written : b.bytesWritten = sink.bytes.length
  crc : b.crc = Crc32.start.update sink.bytes

theorem recorded_new (hpos : 0 < size) :
    Recorded [] ⟨SlotRing.filled size hpos none, 1, 0, 0, .start⟩ {} where
  first := Nat.le_refl 1
  counted := (held_new size hpos).symm
  once := List.nodup_nil
  ahead seq _ := (holding_new hpos seq).symm
  output := ⟨[], rfl, rfl⟩
  written := rfl
  crc := rfl

theorem Recorded.roomy (h : Recorded record b sink) (hword : b.next + b.size < limit32) : b.Roomy :=
  ⟨h.counted, hword⟩

/-- A packet is held, was held before, or has a number out of range. -/
theorem add_any (hspare : b.Spare) (data : Bytes) (seq : Nat) :
    b.add data seq =
      if seq < b.next ∨ b.next + b.size ≤ seq then
        (.error (.error (.outsideWindow seq b.next (b.next + b.size))), b)
      else if (b.holding seq).isSome then (.ok .duplicate, b)
      else (.ok .stored, b.store data seq) := by
  by_cases hlo : seq < b.next
  · rw [if_pos (Or.inl hlo), add, Word.plus_of_lt hspare.word]
    exact if_pos (Or.inl hlo)
  · rcases add_spare_cases data (Nat.le_of_not_lt hlo) with ⟨a, b', -, hnot⟩ | hadd
    · exact absurd hspare hnot
    · simp only [hadd, hlo, false_or]

theorem Recorded.store (h : Recorded record b sink) {seq : Nat} (hlo : b.next ≤ seq)
    (hhi : seq < b.next + b.size) (hfree : b.holding seq = none) (data : Bytes) :
    Recorded (record ++ [(seq, data)]) (b.store data seq) sink := by
  have hnew : record.lookup seq = none := (h.ahead seq hlo).trans hfree
  have hlookup := lookup_append_new hnew data
  refine ⟨h.first, ?_, ?_, fun s hs => ?_, ?_, h.written, h.crc⟩
  · rw [holding_of_range hlo hhi] at hfree
    rw [pending_store, held_store hfree, h.counted]
  · exact nodup_append_new h.once hnew data
  · rw [hlookup, holding_store hlo hhi, h.ahead s hs]
  · obtain ⟨pieces, hpieces, hbytes⟩ := h.output
    -- the numbers before `next` are found as before, since the new one is not among them
    refine ⟨pieces, ?_, hbytes⟩
    rw [← hpieces]
    refine List.map_congr_left fun s hs => ?_
    have := List.mem_range'_1.mp hs
    rw [hlookup, if_neg]
    rw [next_store] at this
    omega

/-- A flush writes the packets from `next` up to the first that is not held. -/
theorem Recorded.wrote (h : Recorded record b sink) {run : List Bytes} (hwrote : b.Wrote run b')
    (hbytes : sink'.bytes = sink.bytes ++ run.flatten)
    (htotal : b'.bytesWritten = b.bytesWritten + run.flatten.length) : Recorded record b' sink' := by
  have hfirst := h.first
  have hnext := hwrote.next
  refine ⟨by omega, ?_, h.once, fun seq hseq => ?_, ?_, ?_, ?_⟩
  · have hpending := hwrote.pending
    have hheld := hwrote.held
    have hcounted := h.counted
    omega
  · rw [h.ahead seq (by omega), hwrote.rest seq hseq]
  · obtain ⟨pieces, hpieces, hout⟩ := h.output
    refine ⟨pieces ++ run, ?_, by rw [hbytes, hout, List.flatten_append]⟩
    -- behind what was written before come the packets that were held from `next` on
    rw [hnext]
    refine map_range'_append hfirst hpieces fun i hi => ?_
    rw [h.ahead _ (Nat.le_add_right _ _), hwrote.taken i hi]
  · rw [htotal, h.written, hbytes, List.length_append]
  · rw [hwrote.crc, h.crc, hbytes, Crc32.update_append]

/-- A flush whose sink does not fail succeeds. -/
theorem Recorded.flush (h : Recorded record b sink) (hword : b.next + b.size < limit32) :
    ∃ run b' sink', b.perform sink (.flush none) = (.flushed (.ok run.flatten.length), b', sink') ∧
      b.Wrote run b' ∧ sink'.bytes = sink.bytes ++ run.flatten ∧ Recorded record b' sink' := by
  rcases @flush_cases b { sink with room := none } rfl with
    ⟨a, b', sink', -, hnot⟩ | ⟨run, b', sink', hflush, hwrote, -, hbytes, htotal⟩
  · exact absurd (h.roomy hword) hnot
  · refine ⟨run, b', sink', ?_, hwrote, hbytes, h.wrote hwrote hbytes htotal⟩
    rw [perform, hflush]
    rfl

/-- Every call keeps the record, with what it has stored. -/
theorem Recorded.perform (h : Recorded record b sink) {call : Call} (hfits : call.Fits b) :
    Recorded (record ++ entry call (b.perform sink call).1) (b.perform sink call).2.1
      (b.perform sink call).2.2 := by
  obtain ⟨hsteady, hword⟩ := hfits
  cases call with
  | add data seq =>
      show Recorded (record ++ entry (.add data seq) (.added (b.add data seq).1)) (b.add data seq).2 sink
      rw [add_any (h.roomy hword).spare]
      split
      · exact (List.append_nil record).symm ▸ h
      · rename_i hin
        split
        · exact (List.append_nil record).symm ▸ h
        · rename_i hfree
          exact h.store (by omega) (by omega) (Option.not_isSome_iff_eq_none.mp hfree) data
  | flush room =>
      obtain rfl : room = none := hsteady
      obtain ⟨run, b', sink', hflush, -, -, hkept⟩ := h.flush hword
      rw [hflush]
      exact (List.append_nil record).symm ▸ hkept

/-- So does one call after the other. -/
theorem Recorded.run (h : Recorded record b sink) {calls : List Call} (hfit : b.AllFit sink calls) :
    Recorded (record ++ stored calls (b.run sink calls).1) (b.run sink calls).2.1
      (b.run sink calls).2.2 := by
  induction calls generalizing record b sink with
  | nil => exact (List.append_nil record).symm ▸ h
  | cons call rest ih =>
      -- the record of the rest starts with what the first call has stored
      have hrest := ih (h.perform hfit.1) hfit.2
      rw [List.append_assoc] at hrest
      exact hrest

/-- The buffers of a size that calls can lead to, with what was stored on the way. -/
theorem recorded_of_run (hpos : 1 ≤ size) (hle : size ≤ 229) : ∃ b, make size = .ok b ∧
    ∀ calls, b.AllFit {} calls →
      Recorded (stored calls (b.run {} calls).1) (b.run {} calls).2.1 (b.run {} calls).2.2 := by
  refine ⟨_, make_eq hpos hle, fun calls hfit => ?_⟩
  have hrun := (recorded_new hpos).run hfit
  rwa [List.nil_append] at hrun

/-! ## What is written -/

/-- What was stored has been written up to `next`, each packet once and in order, or waits to be. -/
structure InOrder (record : List (Nat × Bytes)) (b : ReorderBuffer) (sink : Sink) : Prop where
  first : 1 ≤ b.next
  /-- No number is stored twice. -/
  once : (record.map Prod.fst).Nodup
  /-- The packets before `next` were stored, and are written in the order of their numbers. -/
  output : ∃ pieces : List Bytes, (List.range' 1 (b.next - 1)).map (record.lookup ·) = pieces.map some ∧
    sink.bytes = pieces.flatten
  bytesWritten : b.bytesWritten = sink.bytes.length
  digest : b.digest = Crc32.ofBytes sink.bytes
  /-- A flush answers with the length of what it writes, and stops at the first number that was not
  stored. -/
  flush : b.next + b.size < limit32 → ∃ run b' sink',
    b.perform sink (.flush none) = (.flushed (.ok run.flatten.length), b', sink') ∧
    sink'.bytes = sink.bytes ++ run.flatten ∧ b'.next = b.next + run.length ∧
    (∀ seq, b.next ≤ seq → seq < b'.next → (record.lookup seq).isSome) ∧
    record.lookup b'.next = none ∧ b'.needsFlush = false ∧ (run ≠ [] ↔ b.needsFlush = true)

theorem Recorded.inOrder (h : Recorded record b sink) : InOrder record b sink where
  first := h.first
  once := h.once
  output := h.output
  bytesWritten := h.written
  digest := by
    rw [digest, h.crc]
    rfl
  flush hword := by
    obtain ⟨run, b', sink', hflush, hwrote, hbytes, hkept⟩ := h.flush hword
    have hnext := hwrote.next
    have hstopped := hwrote.stopped
    have hneeds : b'.needsFlush = false := by
      rw [needsFlush, ← holding_next, hstopped]
      rfl
    refine ⟨run, b', sink', hflush, hbytes, hnext, fun seq hlo hhi => ?_, ?_, hneeds, ?_⟩
    · obtain ⟨i, rfl⟩ := Nat.exists_eq_add_of_le hlo
      have hi : i < run.length := by omega
      rw [h.ahead _ hlo, hwrote.taken i hi, List.getElem?_eq_getElem hi]
      rfl
    · rw [hkept.ahead _ (Nat.le_refl _), hstopped]
    · rw [needsFlush, ← holding_next]
      cases run with
      | nil =>
          have hsame : b'.next = b.next := hnext
          rw [← hwrote.rest b.next (Nat.le_of_eq hsame), ← hsame, hstopped]
          exact ⟨fun hne => absurd rfl hne, nofun⟩
      | cons data run =>
          have htaken := hwrote.taken 0 (Nat.zero_lt_succ _)
          rw [Nat.add_zero] at htaken
          rw [htaken]
          exact ⟨fun _ => rfl, fun _ => List.cons_ne_nil _ _⟩

/-- **Whatever a buffer is asked, what was stored is written once and in order.** -/
theorem stored_in_order (hpos : 1 ≤ size) (hle : size ≤ 229) : ∃ b, make size = .ok b ∧
    ∀ calls, b.AllFit {} calls →
      InOrder (stored calls (b.run {} calls).1) (b.run {} calls).2.1 (b.run {} calls).2.2 := by
  obtain ⟨b, hmake, hrun⟩ := recorded_of_run hpos hle
  exact ⟨b, hmake, fun calls hfit => (hrun calls hfit).inOrder⟩

/-- The first packet comes after the second, the third too early.  The second comes again with other bytes,
the first when it has been written, the fourth is empty, and the last waits for the one before it. -/
def gappedCalls : List Call :=
  [.add [2, 2] 2, .flush none, .add [9] 3, .add [1] 1, .add [7] 2, .flush none, .add [] 4,
    .add [8] 1, .add [3] 3, .flush none, .add [6] 6]

/-- What is stored of them. -/
def gappedRecord : List (Nat × Bytes) := [(2, [2, 2]), (1, [1]), (4, []), (3, [3]), (6, [6])]

theorem gapped_run (hmake : make 2 = .ok b) : b.AllFit {} gappedCalls ∧
    stored gappedCalls (b.run {} gappedCalls).1 = gappedRecord := by
  cases hmake
  exact ⟨by decide, rfl⟩

theorem gaps_in_order : ∃ b, make 2 = .ok b ∧ b.AllFit {} gappedCalls ∧
    InOrder gappedRecord (b.run {} gappedCalls).2.1 (b.run {} gappedCalls).2.2 ∧
    (b.run {} gappedCalls).2.1.next = 5 ∧ (b.run {} gappedCalls).2.2.bytes = [1, 2, 2, 3] := by
  obtain ⟨b, hmake, hrun⟩ := @stored_in_order 2 (by decide) (by decide)
  obtain ⟨hfit, hstored⟩ := gapped_run hmake
  refine ⟨b, hmake, hfit, hstored ▸ hrun gappedCalls hfit, ?_⟩
  cases hmake
  exact ⟨rfl, rfl⟩

/-! ## What is held -/

/-- A slot is taken by the number in range that it belongs to, and by no other. -/
structure Exact (record : List (Nat × Bytes)) (b : ReorderBuffer) : Prop where
  pending : b.pending = b.slots.slots.countP Option.isSome
  bounded : b.pending ≤ b.size
  isOpen_iff : b.isOpen = true ↔
    ∃ seq, b.next ≤ seq ∧ seq < b.next + b.size ∧ record.lookup seq = none
  /-- One number in range belongs to a slot, and the slot has what was stored under it. -/
  slot : ∀ slot : Fin b.slots.slots.size, ∃ seq, b.next ≤ seq ∧ seq < b.next + b.size ∧
    seq % b.size = slot ∧ b.slots.slots[slot] = record.lookup seq ∧
    ∀ s, b.next ≤ s → s < b.next + b.size → s % b.size = slot → s = seq
  /-- Nothing was stored from too far ahead. -/
  beyond : ∀ seq, b.next + b.size ≤ seq → record.lookup seq = none
  outside : b.next + b.size < limit32 → ∀ data seq, seq < b.next ∨ b.next + b.size ≤ seq →
    b.add data seq = (.error (.error (.outsideWindow seq b.next (b.next + b.size))), b)
  duplicate : b.next + b.size < limit32 → ∀ data seq, b.next ≤ seq → seq < b.next + b.size →
    (record.lookup seq).isSome → b.add data seq = (.ok .duplicate, b)
  /-- A packet that is stored is added to those that are held. -/
  added : b.next + b.size < limit32 → ∀ data seq, b.next ≤ seq → seq < b.next + b.size →
    record.lookup seq = none → ∃ b', b.add data seq = (.ok .stored, b') ∧ b'.next = b.next ∧
      b'.size = b.size ∧ b'.pending = b.pending + 1 ∧ b'.bytesWritten = b.bytesWritten ∧
      b'.crc = b.crc ∧ b'.slots.get seq = some data ∧
      ∀ s, b.next ≤ s → s < b.next + b.size → s ≠ seq → b'.slots.get s = b.slots.get s

/-- A slot has what is held under any of its numbers that is in range. -/
theorem Recorded.get_eq (h : Recorded record b sink) {seq : Nat} (hlo : b.next ≤ seq)
    (hhi : seq < b.next + b.size) : b.slots.get seq = record.lookup seq := by
  rw [h.ahead seq hlo, holding_of_range hlo hhi]

/-- Every slot belongs to some number in range. -/
theorem Recorded.slot (h : Recorded record b sink) (slot : Fin b.slots.slots.size) :
    ∃ seq, b.next ≤ seq ∧ seq < b.next + b.size ∧ seq % b.size = slot ∧
      b.slots.slots[slot] = record.lookup seq := by
  obtain ⟨seq, hlo, hhi, rfl⟩ := b.slots.exists_index_eq b.next slot
  exact ⟨seq, hlo, hhi, rfl, h.get_eq hlo hhi⟩

/-- Some slot is free just when some number in range is not held. -/
theorem Recorded.isOpen_iff (h : Recorded record b sink) : b.isOpen = true ↔
    ∃ seq, b.next ≤ seq ∧ seq < b.next + b.size ∧ record.lookup seq = none := by
  have hle := b.held_le_size
  rw [isOpen, decide_eq_true_iff, h.counted]
  constructor
  · intro hlt
    obtain ⟨a, ha, hfree⟩ : ∃ a ∈ b.slots.slots, ¬ a.isSome = true := by
      refine Classical.byContradiction fun hall => Nat.ne_of_lt hlt ?_
      refine Array.countP_eq_size.mpr fun a ha => ?_
      exact Classical.byContradiction fun hfree => hall ⟨a, ha, hfree⟩
    obtain ⟨i, hi, rfl⟩ := Array.mem_iff_getElem.mp ha
    obtain ⟨seq, hlo, hhi, -, hslot⟩ := h.slot ⟨i, hi⟩
    exact ⟨seq, hlo, hhi, hslot ▸ Option.not_isSome_iff_eq_none.mp hfree⟩
  · rintro ⟨seq, hlo, hhi, hnone⟩
    refine Nat.lt_of_le_of_ne hle fun hfull => ?_
    have htaken := Array.countP_eq_size.mp hfull (b.slots.get seq) (Array.getElem_mem _)
    rw [h.get_eq hlo hhi, hnone] at htaken
    cases htaken

theorem Recorded.exact (h : Recorded record b sink) : Exact record b where
  pending := h.counted
  bounded := h.counted ▸ b.held_le_size
  isOpen_iff := h.isOpen_iff
  slot slot := by
    obtain ⟨seq, hlo, hhi, hslot, hget⟩ := h.slot slot
    refine ⟨seq, hlo, hhi, hslot, hget, fun s h1 h2 hs => ?_⟩
    exact SlotRing.eq_of_mod_eq (hs.trans hslot.symm) (by omega) (by omega)
  beyond seq hfar := by rw [h.ahead seq (by omega), holding_of_far hfar]
  outside hword data seq hout := by
    rw [add_any (h.roomy hword).spare, if_pos hout]
  duplicate hword data seq hlo hhi htaken := by
    rw [h.ahead seq hlo] at htaken
    rw [add_any (h.roomy hword).spare, if_neg (by omega), if_pos htaken]
  added hword data seq hlo hhi hnew := by
    rw [h.ahead seq hlo] at hnew
    have hfree : ¬ (b.holding seq).isSome = true := by
      rw [hnew]
      exact Bool.false_ne_true
    refine ⟨b.store data seq, ?_, rfl, size_store data seq, rfl, rfl, rfl, ?_, fun s h1 h2 hne => ?_⟩
    · rw [add_any (h.roomy hword).spare, if_neg (by omega), if_neg hfree]
    · exact SlotRing.get_set_self _ _ _
    · have hsize : b.slots.size = b.size := rfl
      exact SlotRing.get_set_near _ (Ne.symm hne) (by omega) (by omega)

/-- **Whatever a buffer is asked, a packet is refused only for its number, or because a packet with its
number is held.** -/
theorem slots_exact (hpos : 1 ≤ size) (hle : size ≤ 229) : ∃ b, make size = .ok b ∧
    ∀ calls, b.AllFit {} calls →
      Exact (stored calls (b.run {} calls).1) (b.run {} calls).2.1 := by
  obtain ⟨b, hmake, hrun⟩ := recorded_of_run hpos hle
  exact ⟨b, hmake, fun calls hfit => (hrun calls hfit).exact⟩

/-- Of the numbers five and six the second is held, and it is the duplicate of no packet but its own. -/
theorem gaps_exact : ∃ b, make 2 = .ok b ∧ b.AllFit {} gappedCalls ∧
    Exact gappedRecord (b.run {} gappedCalls).2.1 ∧ (b.run {} gappedCalls).2.1.pending = 1 ∧
    ((b.run {} gappedCalls).2.1.add [0] 4).1 = .error (.error (.outsideWindow 4 5 7)) ∧
    ((b.run {} gappedCalls).2.1.add [0] 6).1 = .ok .duplicate ∧
    ((b.run {} gappedCalls).2.1.add [0] 5).1 = .ok .stored := by
  obtain ⟨b, hmake, hrun⟩ := @slots_exact 2 (by decide) (by decide)
  obtain ⟨hfit, hstored⟩ := gapped_run hmake
  refine ⟨b, hmake, hfit, hstored ▸ hrun gappedCalls hfit, ?_⟩
  cases hmake
  exact ⟨rfl, rfl, rfl, rfl⟩

end SelectiveReject.ReorderBuffer
