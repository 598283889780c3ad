import SelectiveReject.Proofs.Pieces
import SelectiveReject.Proofs.Holding

/-!
# The buffer writes the file in order

A buffer `Fits` a job when everything that it holds is the piece of its number, and it has `Written` the
pieces before `next`, in order and each once.  Holding one more piece keeps this, and so does writing the
run that starts at `next`:

```
b.Fits j limit → Written j b sink → b.Wrote run b'
  with  b'.Fits j limit,  Written j b' (sink ++ run)
```
-/

namespace SelectiveReject

/-- Pieces that follow each other lengthen the beginning of the file. -/
theorem Consignment.upTo_append (j : Consignment) : ∀ (run : List Bytes) (k : Nat),
    (∀ i, i < run.length → run[i]? = some (j.piece (k + 1 + i))) →
    j.upTo k ++ run.flatten = j.upTo (k + run.length) := by
  intro run
  induction run with
  | nil =>
      intro k _
      exact List.append_nil _
  | cons data run ih =>
      intro k h
      have hfirst : data = j.piece (k + 1) := by
        have := h 0 (Nat.zero_lt_succ _)
        simpa using this
      have hrest := ih (k + 1) fun i hi => by
        have := h (i + 1) (Nat.succ_lt_succ hi)
        rw [List.getElem?_cons_succ] at this
        rw [this, show k + 1 + (i + 1) = k + 1 + 1 + i by omega]
      rw [List.flatten_cons, ← List.append_assoc, hfirst, ← j.upTo_succ, hrest, List.length_cons,
        Nat.succ_add_eq_add_succ]

namespace ReorderBuffer

/-- The buffer holds pieces of the job only, with numbers below `limit`, and counts them. -/
structure Fits (j : Job) (limit : Nat) (b : ReorderBuffer) : Prop where
  first : 1 ≤ b.next
  size : b.size = j.window
  reached : b.next ≤ limit
  content : ∀ seq data, b.holding seq = some data → seq < limit ∧ data = j.piece seq
  counted : b.pending = b.held

/-- The pieces before `next` have been written, and nothing else. -/
structure Written (j : Job) (b : ReorderBuffer) (sink : Sink) : Prop where
  unlimited : sink.room = none
  bytes : sink.bytes = j.upTo (b.next - 1)
  crc : b.crc = Crc32.start.update (j.upTo (b.next - 1))

variable {j : Job} {limit : Nat} {b b' : ReorderBuffer} {sink sink' : Sink}

theorem fits_new (hpos : 0 < j.window) (hlimit : 1 ≤ limit) :
    Fits j limit ⟨SlotRing.filled j.window hpos none, 1, 0, 0, .start⟩ where
  first := Nat.le_refl 1
  size := SlotRing.size_filled _ hpos _
  reached := hlimit
  content seq data h := by
    rw [holding_new] at h
    cases h
  counted := (held_new _ hpos).symm

theorem Fits.mono {limit' : Nat} (h : b.Fits j limit) (hle : limit ≤ limit') : b.Fits j limit' where
  first := h.first
  size := h.size
  reached := Nat.le_trans h.reached hle
  content seq data hdata := by
    obtain ⟨hlt, heq⟩ := h.content seq data hdata
    exact ⟨by omega, heq⟩
  counted := h.counted

theorem Fits.roomy (h : b.Fits j limit) (hword : limit + j.window < limit32) : b.Roomy where
  counted := h.counted
  word := by
    have := h.reached
    rw [h.size]
    omega

/-- A packet in range is held, or was held before; one from too far ahead is not. -/
theorem add_eq (h : b.Fits j limit) (hword : limit + j.window < limit32) {data : Bytes} {seq : Nat}
    (hlo : b.next ≤ seq) :
    b.add data seq =
      if b.next + b.size ≤ seq then
        (.error (.error (.outsideWindow seq b.next (b.next + b.size))), b)
      else if (b.holding seq).isSome then (.ok .duplicate, b)
      else (.ok .stored, b.store data seq) := by
  rcases add_cases data hlo with ⟨a, b', -, hnot⟩ | hadd
  · exact absurd (h.roomy hword) hnot
  · exact hadd

theorem Fits.store (h : b.Fits j limit) {seq : Nat} (hlo : b.next ≤ seq)
    (hhi : seq < b.next + b.size) (hlimit : seq < limit) (hfree : b.holding seq = none) :
    (b.store (j.piece seq) seq).Fits j limit where
  first := h.first
  size := (size_store _ _).trans h.size
  reached := h.reached
  content s data hdata := by
    rw [holding_store hlo hhi] at hdata
    split at hdata
    · rename_i heq
      rw [heq]
      exact ⟨hlimit, (Option.some.inj hdata).symm⟩
    · exact h.content s data hdata
  counted := by
    rw [holding_of_range hlo hhi] at hfree
    rw [held_store hfree, pending_store, h.counted]

/-- Every packet of a run that is written is the piece of its number. -/
theorem Fits.run (h : b.Fits j limit) {run : List Bytes} (hwrote : b.Wrote run b') {i : Nat}
    (hi : i < run.length) : b.next + i < limit ∧ run[i]? = some (j.piece (b.next + i)) := by
  have htaken := hwrote.taken i hi
  rw [List.getElem?_eq_getElem hi] at htaken ⊢
  obtain ⟨hlt, heq⟩ := h.content _ _ htaken
  exact ⟨hlt, congrArg some heq⟩

theorem Fits.wrote (h : b.Fits j limit) {run : List Bytes} (hwrote : b.Wrote run b') :
    b'.Fits j limit where
  first := by
    rw [hwrote.next]
    exact Nat.le_trans h.first (Nat.le_add_right _ _)
  size := hwrote.size.trans h.size
  reached := by
    rw [hwrote.next]
    cases hlength : run.length with
    | zero => exact h.reached
    | succ n => exact (h.run hwrote (i := n) (by omega)).1
  content seq data hdata := by
    rw [hwrote.rest seq (range_of_holding hdata).1] at hdata
    exact h.content seq data hdata
  counted := by
    have hpending := hwrote.pending
    have hheld := hwrote.held
    have hcounted := h.counted
    omega

/-- A run of pieces lengthens what has been written. -/
theorem Fits.upTo_wrote (h : b.Fits j limit) {run : List Bytes} (hwrote : b.Wrote run b') :
    j.upTo (b.next - 1) ++ run.flatten = j.upTo (b'.next - 1) := by
  have hfirst := h.first
  rw [j.upTo_append run (b.next - 1) fun i hi => ?_, hwrote.next]
  · rw [show b.next - 1 + run.length = b.next + run.length - 1 by omega]
  · rw [show b.next - 1 + 1 + i = b.next + i by omega]
    exact (h.run hwrote hi).2

theorem Written.wrote (h : Written j b sink) (hfits : b.Fits j limit) {run : List Bytes}
    (hwrote : b.Wrote run b') (hroom : sink'.room = none)
    (hbytes : sink'.bytes = sink.bytes ++ run.flatten) : Written j b' sink' where
  unlimited := hroom
  bytes := by rw [hbytes, h.bytes, hfits.upTo_wrote hwrote]
  crc := by rw [hwrote.crc, h.crc, ← Crc32.update_append, hfits.upTo_wrote hwrote]

end ReorderBuffer

end SelectiveReject
