import SelectiveReject.Proofs.Storage

/-!
# A buffer whose sinks may fail

A sink that fails has taken some packets whole and of the next one only a part.  This one is lost: it has
left its slot, and it is still counted.  Otherwise the flush has done what it does when nothing is held
under the number of the packet that is lost:

```
b.flush sink fails  =  (b.lose (next + k)).flush, and k packets are written
pending             =  the packets that are held, and one for each flush that has failed
bytesWritten        =  what the flushes that did not fail have answered
digest              =  that of the packets before next, each as it was stored last
```

Only the packet `next` can be lost, and it can be stored again, so in the end each packet is written.
-/

namespace SelectiveReject.ReorderBuffer

/-- The answer of a flush that has failed. -/
def Answer.failed : Answer → Bool
  | .flushed (.error _) => true
  | _ => false

/-- How many bytes an answer says that were written. -/
def Answer.count : Answer → Nat
  | .flushed (.ok count) => count
  | _ => 0

/-- How many flushes have failed. -/
def failures (answers : List Answer) : Nat := answers.countP Answer.failed

/-- How many bytes were written, by the answers. -/
def returned (answers : List Answer) : Nat := total Answer.count answers

/-- What was stored last under a number. -/
def latest (record : List (Nat × Bytes)) (seq : Nat) : Option Bytes := record.reverse.lookup seq

/-- Whenever something is asked, the numbers that may be held fit their word. -/
def InWord (b : ReorderBuffer) (sink : Sink) : List Call → Prop
  | [] => True
  | call :: rest =>
      b.next + b.size < limit32 ∧ (b.perform sink call).2.1.InWord (b.perform sink call).2.2 rest

instance decidableInWord :
    (calls : List Call) → (b : ReorderBuffer) → (sink : Sink) → Decidable (b.InWord sink calls)
  | [], _, _ => inferInstanceAs (Decidable True)
  | call :: rest, b, sink =>
      have := decidableInWord rest (b.perform sink call).2.1 (b.perform sink call).2.2
      inferInstanceAs (Decidable (_ ∧ _))

variable {b b' : ReorderBuffer} {sink : Sink} {record : List (Nat × Bytes)}
  {size failed total : Nat}

theorem latest_concat (record : List (Nat × Bytes)) (seq : Nat) (data : Bytes) (s : Nat) :
    latest (record ++ [(seq, data)]) s = if s = seq then some data else latest record s := by
  unfold latest
  rw [List.reverse_append, List.reverse_singleton, List.singleton_append, List.lookup_cons]
  by_cases hs : s = seq
  · rw [if_pos hs, beq_iff_eq.mpr hs]
  · rw [if_neg hs, beq_false_of_ne hs]

/-! ## A flush that fails -/

/-- A flush has failed in the packet behind a run: the run is written, the packet is lost, and what was held
behind it still is. -/
structure Broke (b : ReorderBuffer) (run : List Bytes) (lost : Bytes) (b' : ReorderBuffer) : Prop where
  next : b'.next = b.next + run.length
  size : b'.size = b.size
  taken : ∀ i, i < run.length → b.holding (b.next + i) = run[i]?
  lost : b.holding b'.next = some lost
  emptied : b'.slots.get b'.next = none
  rest : ∀ seq, b'.next < seq → b'.holding seq = b.holding seq
  pending : b'.pending + run.length = b.pending
  held : b'.held + run.length + 1 = b.held
  crc : b'.crc = b.crc.update run.flatten

theorem broke_of_lose {run : List Bytes} {lost : Bytes}
    (hlost : b.holding (b.next + run.length) = some lost)
    (hwrote : (b.lose (b.next + run.length)).Wrote run b') : b.Broke run lost b' := by
  obtain ⟨hlo, hhi⟩ := range_of_holding hlost
  have hlose := holding_lose hlo hhi
  have hnext : b'.next = b.next + run.length := hwrote.next
  constructor
  · exact hnext
  · exact hwrote.size.trans (size_lose _)
  · intro i hi
    have htaken : (b.lose (b.next + run.length)).holding (b.next + i) = run[i]? := hwrote.taken i hi
    rwa [hlose, if_neg (by omega)] at htaken
  · rw [hnext]
    exact hlost
  · rw [← holding_next]
    exact hwrote.stopped
  · intro seq hseq
    rw [hwrote.rest seq (Nat.le_of_lt hseq), hlose, if_neg (by omega)]
  · exact hwrote.pending
  · rw [holding_of_range hlo hhi] at hlost
    rw [hwrote.held, held_lose hlost]
  · exact hwrote.crc

/-- What a flush may come to, as long as the counters have not left their words. -/
theorem perform_flush (hcounted : b.held ≤ b.pending) (hword : b.next + b.size < limit32) (sink : Sink)
    (room : Option Nat) :
    (∃ run b' sink', b.perform sink (.flush room) = (.flushed (.ok run.flatten.length), b', sink') ∧
        b.Wrote run b' ∧ (∀ n, room = some n → run.flatten.length ≤ n) ∧
        sink'.bytes = sink.bytes ++ run.flatten ∧
        b'.bytesWritten = b.bytesWritten + run.flatten.length) ∨
      ∃ n run lost b' sink',
        b.perform sink (.flush room) = (.flushed (.error (.error sinkFull)), b', sink') ∧
        b.Broke run lost b' ∧ room = some n ∧ run.flatten.length ≤ n ∧
        n < run.flatten.length + lost.length ∧ sink'.bytes = sink.bytes ++ (run.flatten ++ lost).take n ∧
        b'.bytesWritten = b.bytesWritten := by
  rcases b.flush_any { sink with room := room } with
    ⟨a, b', sink', -, hnot⟩ | ⟨run, b', hflush, hwrote, hfits, htotal⟩ |
    ⟨run, lost, b', hflush, hlost, hwrote, hfits, hfull, htotal⟩
  · exact absurd ⟨hcounted, hword⟩ hnot
  · left
    refine ⟨run, b', _, by rw [perform, hflush]; rfl, hwrote, hfits, ?_, htotal⟩
    exact Sink.bytes_push _ _
  · right
    obtain ⟨n, hroom, hmany⟩ : ∃ n, room = some n ∧ n < run.flatten.length + lost.length := by
      cases room with
      | none => exact absurd (fun n hn => by cases hn) hfull
      | some n =>
          refine ⟨n, rfl, Nat.lt_of_not_le fun hle => hfull fun m hm => ?_⟩
          rwa [← Option.some.inj hm]
    refine ⟨n, run, lost, b', _, by rw [perform, hflush]; rfl, broke_of_lose hlost hwrote, hroom,
      hfits n hroom, hmany, ?_, htotal⟩
    rw [hroom]
    exact Array.toList_appendList

/-! ## What every call keeps -/

/-- A buffer has what was stored, and counts the packets that were lost. -/
structure Kept (size : Nat) (record : List (Nat × Bytes)) (failed total : Nat) (b : ReorderBuffer) :
    Prop where
  size_eq : b.size = size
  first : 1 ≤ b.next
  counted : b.pending = b.held + failed
  front : ∀ data, b.holding b.next = some data → latest record b.next = some data
  ahead : ∀ seq, b.next < seq → b.holding seq = latest record seq
  written : ∃ pieces : List Bytes, (List.range' 1 (b.next - 1)).map (latest record ·) = pieces.map some ∧
    b.crc = Crc32.start.update pieces.flatten
  total_eq : b.bytesWritten = total

theorem kept_new (hpos : 0 < size) :
    Kept size [] 0 0 ⟨SlotRing.filled size hpos none, 1, 0, 0, .start⟩ where
  size_eq := SlotRing.size_filled _ hpos _
  first := Nat.le_refl 1
  counted := (held_new size hpos).symm
  front data hdata := by
    rw [holding_new] at hdata
    cases hdata
  ahead seq _ := holding_new hpos seq
  written := ⟨[], rfl, rfl⟩
  total_eq := rfl

/-- Unless too many flushes have failed, one more packet can be counted. -/
theorem Kept.spare (h : Kept size record failed total b) (hword : b.next + b.size < limit32)
    (hfew : failed + size < limit32) : b.Spare where
  word := hword
  counter hheld := by
    have hcounted := h.counted
    have hsize := h.size_eq
    omega

/-- What is held was stored under its number, and not again since. -/
theorem Kept.stored (h : Kept size record failed total b) {seq : Nat} {data : Bytes}
    (hdata : b.holding seq = some data) : latest record seq = some data := by
  rcases Nat.eq_or_lt_of_le (range_of_holding hdata).1 with rfl | hlt
  · exact h.front data hdata
  · rw [← h.ahead seq hlt, hdata]

theorem Kept.store (h : Kept size record failed total b) {seq : Nat} (hlo : b.next ≤ seq)
    (hhi : seq < b.next + b.size) (hfree : b.holding seq = none) (data : Bytes) :
    Kept size (record ++ [(seq, data)]) failed total (b.store data seq) where
  size_eq := (size_store data seq).trans h.size_eq
  first := h.first
  counted := by
    rw [holding_of_range hlo hhi] at hfree
    have hcounted := h.counted
    rw [pending_store, held_store hfree]
    omega
  front d hd := by
    rw [next_store, holding_store hlo hhi] at hd
    rw [next_store, latest_concat]
    split
    · rename_i heq
      rwa [if_pos heq] at hd
    · rename_i hne
      rw [if_neg hne] at hd
      exact h.front d hd
  ahead s hs := by
    rw [holding_store hlo hhi, latest_concat, h.ahead s hs]
  written := by
    obtain ⟨pieces, hpieces, hcrc⟩ := h.written
    -- the numbers before `next` are not stored any more
    refine ⟨pieces, ?_, hcrc⟩
    rw [← hpieces]
    refine List.map_congr_left fun s hs => ?_
    have hlt := List.mem_range'_1.mp hs
    rw [next_store] at hlt
    rw [latest_concat, if_neg (by omega)]
  total_eq := h.total_eq

/-- Behind what was written come the packets that were held from `next` on. -/
theorem Kept.goes_on (h : Kept size record failed total b) {run : List Bytes}
    (htaken : ∀ i, i < run.length → b.holding (b.next + i) = run[i]?)
    (hnext : b'.next = b.next + run.length) (hcrc : b'.crc = b.crc.update run.flatten) :
    ∃ pieces : List Bytes, (List.range' 1 (b'.next - 1)).map (latest record ·) = pieces.map some ∧
      b'.crc = Crc32.start.update pieces.flatten := by
  obtain ⟨pieces, hpieces, hwritten⟩ := h.written
  refine ⟨pieces ++ run, ?_, by rw [hcrc, hwritten, List.flatten_append, Crc32.update_append]⟩
  rw [hnext]
  refine map_range'_append h.first hpieces fun i hi => ?_
  have hheld := htaken i hi
  rw [List.getElem?_eq_getElem hi] at hheld ⊢
  exact h.stored hheld

theorem Kept.wrote (h : Kept size record failed total b) {run : List Bytes} (hwrote : b.Wrote run b')
    (htotal : b'.bytesWritten = b.bytesWritten + run.flatten.length) :
    Kept size record failed (total + run.flatten.length) b' where
  size_eq := hwrote.size.trans h.size_eq
  first := by
    have hfirst := h.first
    have hnext := hwrote.next
    omega
  counted := by
    have hcounted := h.counted
    have hpending := hwrote.pending
    have hheld := hwrote.held
    omega
  front data hdata := by
    rw [hwrote.stopped] at hdata
    cases hdata
  ahead seq hseq := by
    have hnext := hwrote.next
    rw [hwrote.rest seq (Nat.le_of_lt hseq), h.ahead seq (by omega)]
  written := h.goes_on hwrote.taken hwrote.next hwrote.crc
  total_eq := by rw [htotal, h.total_eq]

theorem Kept.broke (h : Kept size record failed total b) {run : List Bytes} {lost : Bytes}
    (hbroke : b.Broke run lost b') (htotal : b'.bytesWritten = b.bytesWritten) :
    Kept size record (failed + 1) total b' where
  size_eq := hbroke.size.trans h.size_eq
  first := by
    have hfirst := h.first
    have hnext := hbroke.next
    omega
  counted := by
    have hcounted := h.counted
    have hpending := hbroke.pending
    have hheld := hbroke.held
    omega
  front data hdata := by
    rw [holding_next, hbroke.emptied] at hdata
    cases hdata
  ahead seq hseq := by
    have hnext := hbroke.next
    rw [hbroke.rest seq hseq, h.ahead seq (by omega)]
  written := h.goes_on hbroke.taken hbroke.next hbroke.crc
  total_eq := by rw [htotal, h.total_eq]

theorem Kept.covered (h : Kept size record failed total b) : b.held ≤ b.pending := by
  rw [h.counted]
  exact Nat.le_add_right _ _

/-- Every call keeps this, with what it has stored, and counts it if it was a flush that has failed. -/
theorem Kept.perform (h : Kept size record failed total b) (hword : b.next + b.size < limit32)
    (call : Call) (hfew : failed + failures [(b.perform sink call).1] + size < limit32) :
    Kept size (record ++ entry call (b.perform sink call).1)
      (failed + failures [(b.perform sink call).1]) (total + returned [(b.perform sink call).1])
      (b.perform sink call).2.1 := by
  cases call with
  | add data seq =>
      show Kept size (record ++ entry (.add data seq) (.added (b.add data seq).1)) failed total
        (b.add data seq).2
      rw [add_any (h.spare hword hfew)]
      split
      · exact (List.append_nil record).symm ▸ h
      · rename_i hin
        split
        · exact (List.append_nil record).symm ▸ h
        · rename_i hfree
          exact h.store (by omega) (by omega) (Option.not_isSome_iff_eq_none.mp hfree) data
  | flush room =>
      rcases perform_flush h.covered hword sink room with
        ⟨run, b', sink', hflush, hwrote, -, -, htotal⟩ |
        ⟨n, run, lost, b', sink', hflush, hbroke, -, -, -, -, htotal⟩
      · rw [hflush]
        exact (List.append_nil record).symm ▸ h.wrote hwrote htotal
      · rw [hflush]
        exact (List.append_nil record).symm ▸ h.broke hbroke htotal

theorem failures_cons (answer : Answer) (answers : List Answer) :
    failures (answer :: answers) = failures [answer] + failures answers := by
  rw [failures, ← List.singleton_append, List.countP_append]
  rfl

theorem returned_cons (answer : Answer) (answers : List Answer) :
    returned (answer :: answers) = returned [answer] + returned answers :=
  total_append Answer.count [answer] answers

/-- So does one call after the other. -/
theorem Kept.run (h : Kept size record failed total b) {calls : List Call} (hword : b.InWord sink calls)
    (hfew : failed + failures (b.run sink calls).1 + size < limit32) :
    Kept size (record ++ ReorderBuffer.stored calls (b.run sink calls).1)
      (failed + failures (b.run sink calls).1) (total + returned (b.run sink calls).1)
      (b.run sink calls).2.1 := by
  induction calls generalizing record failed total b sink with
  | nil => exact (List.append_nil record).symm ▸ h
  | cons call rest ih =>
      have hsplit : (b.run sink (call :: rest)).1 = (b.perform sink call).1 ::
          ((b.perform sink call).2.1.run (b.perform sink call).2.2 rest).1 := rfl
      rw [hsplit, failures_cons] at hfew ⊢
      rw [returned_cons]
      have hrest := ih (h.perform hword.1 call (by omega)) hword.2 (by omega)
      rw [List.append_assoc, Nat.add_assoc, Nat.add_assoc] at hrest
      exact hrest

/-- The buffers of a size that calls can lead to. -/
theorem kept_of_run (hpos : 1 ≤ size) (hle : size ≤ 229) : ∃ b, make size = .ok b ∧
    ∀ calls, b.InWord {} calls → failures (b.run {} calls).1 + size < limit32 →
      Kept size (ReorderBuffer.stored calls (b.run {} calls).1) (failures (b.run {} calls).1)
        (returned (b.run {} calls).1) (b.run {} calls).2.1 := by
  refine ⟨_, make_eq hpos hle, fun calls hword hfew => ?_⟩
  have hrun := (kept_new hpos).run hword (by rwa [Nat.zero_add])
  rwa [List.nil_append, Nat.zero_add, Nat.zero_add] at hrun

/-! ## What failed flushes leave behind -/

/-- A buffer that has answered calls, of which some may be flushes that have failed. -/
structure Accounted (calls : List Call) (answers : List Answer) (b : ReorderBuffer) : Prop where
  pending : b.pending = (b.range.countP fun seq => (b.holding seq).isSome) + failures answers
  bytesWritten : b.bytesWritten = returned answers
  digest : ∃ pieces : List Bytes,
    (List.range' 1 (b.next - 1)).map (latest (stored calls answers) ·) = pieces.map some ∧
      b.digest = Crc32.ofBytes pieces.flatten
  /-- What is held was stored under its number, and not again since. -/
  holding : ∀ seq data, b.holding seq = some data → latest (stored calls answers) seq = some data
  /-- Nothing that was stored is gone but what was written, and perhaps the packet `next`. -/
  ahead : ∀ seq, b.next < seq → b.holding seq = latest (stored calls answers) seq
  /-- A flush either writes the whole run or fails in the packet behind a part of it, and this packet can be
  stored again. -/
  flush : b.next + b.size < limit32 → ∀ sink room,
    (∃ run b' sink', b.perform sink (.flush room) = (.flushed (.ok run.flatten.length), b', sink') ∧
      b.Wrote run b' ∧ (∀ n, room = some n → run.flatten.length ≤ n) ∧
      sink'.bytes = sink.bytes ++ run.flatten) ∨
    ∃ n run lost b' sink',
      b.perform sink (.flush room) = (.flushed (.error (.error sinkFull)), b', sink') ∧
      b.Broke run lost b' ∧ room = some n ∧ run.flatten.length ≤ n ∧
      n < run.flatten.length + lost.length ∧ sink'.bytes = sink.bytes ++ (run.flatten ++ lost).take n ∧
      (b'.next + b'.size < limit32 → failures answers + 1 + b.size < limit32 → ∀ data,
        b'.add data b'.next = (.ok .stored, b'.store data b'.next))

theorem add_emptied (hspare : b.Spare) (hempty : b.slots.get b.next = none) (data : Bytes) :
    b.add data b.next = (.ok .stored, b.store data b.next) := by
  have hpos := b.size_pos
  rw [add_any hspare, if_neg (by omega), holding_next, hempty, if_neg (by simp)]

/-- **A flush that fails loses the packet it failed in, which can be stored again, and nothing else.** -/
theorem failures_accounted (hpos : 1 ≤ size) (hle : size ≤ 229) : ∃ b, make size = .ok b ∧
    ∀ calls, b.InWord {} calls → failures (b.run {} calls).1 + size < limit32 →
      Accounted calls (b.run {} calls).1 (b.run {} calls).2.1 := by
  obtain ⟨b, hmake, hrun⟩ := kept_of_run hpos hle
  refine ⟨b, hmake, fun calls hword hfew => ?_⟩
  have h := hrun calls hword hfew
  refine ⟨?_, h.total_eq, ?_, fun seq data => h.stored, h.ahead, fun hnumbers sink room => ?_⟩
  · rw [← held_eq]
    exact h.counted
  · obtain ⟨pieces, hpieces, hcrc⟩ := h.written
    refine ⟨pieces, hpieces, ?_⟩
    rw [digest, hcrc]
    rfl
  · rcases perform_flush h.covered hnumbers sink room with
      ⟨run, b', sink', hflush, hwrote, hfits, hbytes, -⟩ |
      ⟨n, run, lost, b', sink', hflush, hbroke, hroom, hfits, hfull, hbytes, htotal⟩
    · exact Or.inl ⟨run, b', sink', hflush, hwrote, hfits, hbytes⟩
    · refine Or.inr ⟨n, run, lost, b', sink', hflush, hbroke, hroom, hfits, hfull, hbytes,
        fun hnumbers' hfew' data => ?_⟩
      rw [h.size_eq] at hfew'
      exact add_emptied ((h.broke hbroke htotal).spare hnumbers' hfew') hbroke.emptied data

/-- The second packet is lost twice.  When it has been written the third time, two packets that are not there
any more are still counted. -/
def tornCalls : List Call :=
  [.add [1] 1, .add [2, 2] 2, .add [3] 3, .flush (some 2), .add [7] 2, .add [5] 5, .flush (some 0),
    .add [8, 8] 2, .flush none, .add [6] 6]

theorem torn_accounted : ∃ b, make 3 = .ok b ∧ b.InWord {} tornCalls ∧
    failures (b.run {} tornCalls).1 = 2 ∧ returned (b.run {} tornCalls).1 = 3 ∧
    Accounted tornCalls (b.run {} tornCalls).1 (b.run {} tornCalls).2.1 ∧
    (b.run {} tornCalls).2.1.pending = 3 ∧ (b.run {} tornCalls).2.1.digest = Crc32.ofBytes [1, 8, 8, 3] ∧
    (b.run {} tornCalls).2.2.bytes = [1, 2, 8, 8, 3] := by
  obtain ⟨b, hmake, hrun⟩ := @failures_accounted 3 (by decide) (by decide)
  have hwords : b.InWord {} tornCalls := by
    cases hmake
    decide
  have hfailures : failures (b.run {} tornCalls).1 = 2 := by
    cases hmake
    rfl
  refine ⟨b, hmake, hwords, hfailures, ?_, hrun tornCalls hwords (by rw [hfailures]; decide), ?_⟩
  · cases hmake
    rfl
  · cases hmake
    exact ⟨rfl, by decide +kernel, rfl⟩

end SelectiveReject.ReorderBuffer
