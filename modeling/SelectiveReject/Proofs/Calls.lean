import SelectiveReject.Proofs.Window
import SelectiveReject.Channel

/-!
# A window in any hands

A transfer adds packets in order and acknowledges them from `lower` on.  Here a window is asked anything,
with any numbers: packets are acknowledged ahead of others, and `lower` moves only part of the way.  The
slots that `lower` has passed stay acknowledged, so those that no number occupies can always be used, and
a packet is refused for its number or because the window is full, for nothing else:

```
addPane payload seq    seq ≠ current                outOfOrder
                       current - lower = size       windowClosed
                       otherwise                    current + 1
```

What fails changes nothing, and `ackThrough ack` is `markAck` of all from `lower` up to `ack`, then
`slide (ack + 1)`.
-/

namespace SelectiveReject.SendWindow

/-- Sends a packet again through a channel. -/
def resendThrough (w : SendWindow) (seq : Nat) (flag : Flag) (c : Channel) (link : Link)
    (faults : FaultModel) : Sent :=
  match w.resend seq flag with
  | .error e => ⟨.error (.error e), c, faults, none⟩
  | .ok p => c.sendPacket link faults p

/-- What a window can be asked; a packet is sent again through some channel. -/
inductive Call where
  | addPane (payload : Bytes) (seq : Nat)
  | markAck (seq : Nat)
  | slide (newLower : Nat)
  | ackThrough (ack : Nat)
  | pane (seq : Nat)
  | oldestUnacked
  | allAcked
  | isOpen
  | resend (seq : Nat) (flag : Flag) (channel : Channel) (link : Link) (faults : FaultModel)

inductive Answer where
  | done (result : Except Stop Unit)
  | moved (result : Except Stop Nat)
  | pane (pane : Option Pane)
  | number (seq : Option Nat)
  | truth (result : Except Stop Bool)
  | sent (sent : Sent)

/-- The answer to a call, and the window it leaves. -/
def perform (w : SendWindow) : Call → Answer × SendWindow
  | .addPane payload seq => Prod.map .done id (w.addPane payload seq)
  | .markAck seq => Prod.map .done id (w.markAck seq)
  | .slide newLower => Prod.map .done id (w.slide newLower)
  | .ackThrough ack => Prod.map .moved id (w.ackThrough ack)
  | .pane seq => (.pane (w.pane? seq), w)
  | .oldestUnacked => (.number w.oldestUnacked, w)
  | .allAcked => (.truth (.ok w.allAcked), w)
  | .isOpen => (.truth (w.isOpen.mapError .abort), w)
  | .resend seq flag channel link faults =>
      (.sent (w.resendThrough seq flag channel link faults), w)

/-- Makes one call after the other. -/
def run (w : SendWindow) : List Call → List Answer × SendWindow
  | [] => ([], w)
  | call :: rest =>
      let (answer, w) := w.perform call
      let (answers, w) := w.run rest
      (answer :: answers, w)

/-- Whenever a packet is added, the number behind `current` is one. -/
def Call.Fits (w : SendWindow) : Call → Prop
  | .addPane _ _ => w.current + 1 < limit32
  | _ => True

instance (w : SendWindow) : (call : Call) → Decidable (call.Fits w)
  | .addPane _ _ => inferInstanceAs (Decidable (_ < _))
  | .markAck _ | .slide _ | .ackThrough _ | .pane _ | .oldestUnacked | .allAcked | .isOpen
  | .resend _ _ _ _ _ => inferInstanceAs (Decidable True)

def AllFit (w : SendWindow) : List Call → Prop
  | [] => True
  | call :: rest => call.Fits w ∧ (w.perform call).2.AllFit rest

instance decidableAllFit : (calls : List Call) → (w : SendWindow) → Decidable (w.AllFit calls)
  | [], _ => inferInstanceAs (Decidable True)
  | call :: rest, w =>
      have := decidableAllFit rest (w.perform call).2
      inferInstanceAs (Decidable (_ ∧ _))

/-- The windows of a size that calls can lead to. -/
inductive Reached (size : Nat) : SendWindow → Prop
  | new {w : SendWindow} (h : make size = .ok w) : Reached size w
  | call {w : SendWindow} (h : Reached size w) (call : Call) (hfits : call.Fits w) :
      Reached size (w.perform call).2

variable {w w' : SendWindow} {size : Nat}

theorem Reached.run (h : Reached size w) {calls : List Call} (hfit : w.AllFit calls) :
    Reached size (w.run calls).2 := by
  induction calls generalizing w with
  | nil => exact h
  | cons call rest ih => exact ih (h.call call hfit.1) hfit.2

theorem run_append (first rest : List Call) : w.run (first ++ rest) =
    ((w.run first).1 ++ ((w.run first).2.run rest).1, ((w.run first).2.run rest).2) := by
  induction first generalizing w with
  | nil => rfl
  | cons call first ih => simp only [List.cons_append, SendWindow.run, ih]

/-! ## The operations on a window that is in order -/

theorem make_valid (h : make size = .ok w) : w.Valid ∧ w.size = size ∧ w.current = 1 := by
  unfold make SlotRing.forWindow at h
  split at h
  · rename_i hsize
    cases h
    exact ⟨(@keeps_new (fun _ => []) _ hsize.1).toValid, SlotRing.size_filled _ hsize.1 _, rfl⟩
  · cases h

/-- A packet is refused for its number, or because the window is full. -/
theorem Valid.addPane_any (h : w.Valid) (hword : w.current + 1 < limit32) (payload : Bytes)
    (seq : Nat) :
    w.addPane payload seq =
      if seq ≠ w.current then (.error (.error (.outOfOrder w.current seq)), w)
      else if w.current - w.lower = w.size then
        (.error (.error (.windowClosed w.lower w.current)), w)
      else (.ok (), w.push payload) := by
  have hord := h.ordered
  have hbounded := h.bounded
  by_cases hseq : seq = w.current
  · subst hseq
    rw [if_neg (not_not_intro rfl)]
    by_cases hfull : w.current - w.lower = w.size
    · rw [if_pos hfull]
      simp only [addPane, ne_eq, not_true_eq_false, if_false, inFlight, Word.minus_of_le hord,
        if_pos (Nat.le_of_eq hfull.symm)]
    · rw [if_neg hfull]
      exact addPane_eq h (by omega) hword payload
  · rw [if_pos hseq, addPane, if_pos hseq]

/-- `lower` moves up to `newLower`, unless that is out of range or passes a packet that waits. -/
theorem slide_cases (w : SendWindow) (newLower : Nat) :
    ((newLower < w.lower ∨ w.current < newLower ∨
        ∃ seq, w.lower ≤ seq ∧ seq < newLower ∧ (w.panes.get seq).acked = false) ∧
      w.slide newLower = (.error (.error (.invalidSlide w.lower newLower w.current)), w)) ∨
    (w.lower ≤ newLower ∧ newLower ≤ w.current ∧
      (∀ seq, w.lower ≤ seq → seq < newLower → (w.panes.get seq).acked = true) ∧
      w.slide newLower = (.ok (), w.passTo newLower)) := by
  by_cases hlo : newLower < w.lower
  · exact Or.inl ⟨Or.inl hlo, if_pos (Or.inl hlo)⟩
  by_cases hhi : w.current < newLower
  · exact Or.inl ⟨Or.inr (Or.inl hhi), if_pos (Or.inr (Or.inl hhi))⟩
  by_cases hacked : ∀ seq, w.lower ≤ seq → seq < newLower → (w.panes.get seq).acked = true
  · refine Or.inr ⟨by omega, by omega, hacked, slide_eq (by omega) (by omega) fun seq hseq => ?_⟩
    obtain ⟨h1, h2⟩ := mem_numbersBelow.mp hseq
    exact hacked seq h1 h2
  · left
    obtain ⟨seq, h1, h2, hwaits⟩ :
        ∃ seq, w.lower ≤ seq ∧ seq < newLower ∧ (w.panes.get seq).acked = false := by
      refine Classical.byContradiction fun hnone => hacked fun seq h1 h2 => ?_
      exact eq_true_of_ne_false fun hwaits => hnone ⟨seq, h1, h2, hwaits⟩
    refine ⟨Or.inr (Or.inr ⟨seq, h1, h2, hwaits⟩), if_pos (Or.inr (Or.inr ?_))⟩
    rw [List.any_eq_true]
    exact ⟨seq, mem_numbersBelow.mpr ⟨h1, h2⟩, by rw [hwaits]; rfl⟩

theorem Valid.markAck_any (h : w.Valid) (seq : Nat) :
    w.markAck seq =
      if w.Holds seq then (.ok (), w.marked seq) else (.error (.error (.noSuchPane seq)), w) := by
  by_cases hseq : w.Holds seq
  · rw [if_pos hseq]
    exact markAck_eq h hseq
  · rw [if_neg hseq, markAck]
    exact if_neg fun hin => hseq hin.1

/-! ## What every call keeps -/

/-- The window is in order and has its size, and its numbers fit their word. -/
structure Usable (size : Nat) (w : SendWindow) : Prop extends w.Valid where
  size_eq : w.size = size
  word : w.current < limit32

theorem Usable.seated (h : w.Usable size) : w.Seated := h.toValid.seated h.word

theorem Usable.passTo (h : w.Usable size) {n : Nat} (hlo : w.lower ≤ n) (hhi : n ≤ w.current) :
    (w.passTo n).Usable size where
  toValid := h.toValid.passTo hlo hhi
  size_eq := (size_passTo n).trans h.size_eq
  word := h.word

theorem Usable.perform (h : w.Usable size) {call : Call} (hfits : call.Fits w) :
    (w.perform call).2.Usable size := by
  cases call with
  | addPane payload seq =>
      show (w.addPane payload seq).2.Usable size
      rw [h.toValid.addPane_any hfits]
      split
      · exact h
      · split
        · exact h
        · have := h.bounded
          exact ⟨h.toValid.push (by omega) payload, (size_push payload).trans h.size_eq, hfits⟩
  | markAck seq =>
      show (w.markAck seq).2.Usable size
      rw [h.toValid.markAck_any]
      split
      · exact ⟨h.toValid.marked seq, (size_marked seq).trans h.size_eq, h.word⟩
      · exact h
  | slide newLower =>
      show (w.slide newLower).2.Usable size
      rcases w.slide_cases newLower with ⟨-, hslide⟩ | ⟨hlo, hhi, -, hslide⟩
      · rw [hslide]
        exact h
      · rw [hslide]
        exact h.passTo hlo hhi
  | ackThrough ack =>
      show (w.ackThrough ack).2.Usable size
      rw [h.seated.ackThrough_any]
      split
      · exact h
      · split
        · exact h
        · exact h.passTo (by omega) (by omega)
  | pane | oldestUnacked | allAcked | isOpen | resend => exact h

theorem Reached.usable (h : Reached size w) : w.Usable size := by
  induction h with
  | new h =>
      obtain ⟨hvalid, hsize, hcurrent⟩ := make_valid h
      exact ⟨hvalid, hsize, by rw [hcurrent]; decide⟩
  | call _ call hfits ih => exact ih.perform hfits

/-! ## What holds of every window -/

/-- What holds of a window of a size. -/
structure Sound (size : Nat) (w : SendWindow) : Prop where
  size_eq : w.size = size
  first : 1 ≤ w.lower
  ordered : w.lower ≤ w.current
  bounded : w.current ≤ w.lower + size
  /-- Every number that is held occupies its slot. -/
  occupant : ∀ seq, w.Holds seq → (w.panes.get seq).seq = seq
  /-- Every other slot is acknowledged. -/
  free : ∀ slot : Fin w.panes.slots.size, (∀ seq, w.Holds seq → w.panes.index seq ≠ slot) →
    w.panes.slots[slot].acked = true
  /-- The window is open as long as its size is not used up. -/
  isOpen : w.isOpen = .ok (decide (w.current - w.lower < size))
  /-- It is open when a packet can be added. -/
  opens_iff : w.current + 1 < limit32 → ∀ payload,
    (w.isOpen = .ok true ↔ (w.addPane payload w.current).1 = .ok ())
  addPane : w.current + 1 < limit32 → ∀ payload seq, (w.addPane payload seq).1 =
    if seq ≠ w.current then .error (.error (.outOfOrder w.current seq))
    else if w.current - w.lower = size then .error (.error (.windowClosed w.lower w.current))
    else .ok ()

/-- A slot that no number occupies that is held is acknowledged. -/
theorem Valid.free (h : w.Valid) (slot : Fin w.panes.slots.size)
    (hfree : ∀ seq, w.Holds seq → w.panes.index seq ≠ slot) : w.panes.slots[slot].acked = true := by
  obtain ⟨seq, hlo, hhi, rfl⟩ := w.panes.exists_index_eq w.lower slot
  refine h.vacant seq (Nat.le_of_not_lt fun hlt => ?_) hhi
  exact hfree seq ⟨hlo, hlt⟩ rfl

/-- **Whatever a window is asked, its slots and bounds stay in order, and only its size keeps a packet out
whose turn it is.** -/
theorem slots_in_order (h : Reached size w) : w.Sound size := by
  obtain ⟨hvalid, hsize, hword⟩ := h.usable
  have hordered := hvalid.ordered
  have hbounded := hvalid.bounded
  have hopen : w.isOpen = .ok (decide (w.current - w.lower < size)) := by
    rw [isOpen_eq hvalid]
    congr 2
    exact propext (by omega)
  have hadd : w.current + 1 < limit32 → ∀ payload seq, (w.addPane payload seq).1 =
      if seq ≠ w.current then .error (.error (.outOfOrder w.current seq))
      else if w.current - w.lower = size then .error (.error (.windowClosed w.lower w.current))
      else .ok () := by
    intro hnext payload seq
    rw [hvalid.addPane_any hnext, hsize]
    split
    · rfl
    · split <;> rfl
  exact {
    size_eq := hsize
    first := hvalid.first
    ordered := hordered
    bounded := hsize ▸ hbounded
    occupant := hvalid.occupant
    free := hvalid.free
    isOpen := hopen
    opens_iff := fun hnext payload => by
      rw [hopen, hadd hnext, if_neg (not_not_intro rfl)]
      by_cases hfull : w.current - w.lower = size
      · rw [if_pos hfull, decide_eq_false (by omega)]
        exact ⟨nofun, nofun⟩
      · rw [if_neg hfull, decide_eq_true (by omega)]
        exact ⟨fun _ => rfl, fun _ => rfl⟩
    addPane := hadd }

/-! ## All or nothing -/

/-- Acknowledging one packet after the other is as many calls. -/
theorem run_of_markAll {seqs : List Nat} (h : w.markAll seqs = (.ok (), w')) :
    w.run (seqs.map .markAck) = (List.replicate seqs.length (.done (.ok ())), w') := by
  induction seqs generalizing w with
  | nil =>
      cases h
      rfl
  | cons seq rest ih =>
      unfold markAll at h
      split at h
      · rename_i marked hmark
        simp only [List.map_cons, SendWindow.run, perform, hmark, Prod.map, id, ih h,
          List.length_cons, List.replicate_succ]
      · rename_i hfails
        exact absurd h (hfails w')

/-- An acknowledgement that passes packets is that of each, and a slide. -/
theorem run_of_ackThrough {ack count : Nat} (hholds : w.Holds ack)
    (h : w.ackThrough ack = (.ok count, w')) :
    w.run ((w.numbersBelow (ack + 1)).map .markAck ++ [.slide (ack + 1)]) =
      (List.replicate (ack + 2 - w.lower) (.done (.ok ())), w') := by
  have hlo := hholds.1
  have hhi := hholds.2
  rw [ackThrough, if_neg (by omega), if_neg (by omega)] at h
  split at h
  · cases h
  · rename_i marked hmarked
    unfold Word.plus at h
    split at h
    · cases h
    · rename_i next hnext
      split at hnext
      · cases hnext
        split at h
        · cases h
        · rename_i slid hslid
          cases h
          have hlength : (w.numbersBelow (ack + 1)).length + 1 = ack + 2 - w.lower := by
            rw [numbersBelow, List.length_range']
            omega
          rw [run_append, run_of_markAll hmarked, ← hlength, List.replicate_succ']
          simp only [SendWindow.run, perform, hslid, Prod.map, id]
      · cases hnext

/-- What fails leaves a window as it was, and an acknowledgement is taken as a whole. -/
structure AllOrNothing (w : SendWindow) : Prop where
  addPane : w.current + 1 < limit32 → ∀ payload seq stop,
    (w.addPane payload seq).1 = .error stop → (w.addPane payload seq).2 = w
  markAck : ∀ seq stop, (w.markAck seq).1 = .error stop → (w.markAck seq).2 = w
  slide : ∀ newLower stop, (w.slide newLower).1 = .error stop → (w.slide newLower).2 = w
  ackThrough : ∀ ack stop, (w.ackThrough ack).1 = .error stop → (w.ackThrough ack).2 = w
  ackThrough_fails_iff : ∀ ack, (∃ stop, (w.ackThrough ack).1 = .error stop) ↔ w.current ≤ ack
  ackThrough_old : ∀ ack, ack < w.lower → w.ackThrough ack = (.ok 0, w)
  /-- An acknowledgement of a packet that is held acknowledges each up to it, and slides behind it. -/
  ackThrough_held : ∀ ack, w.lower ≤ ack → ack < w.current → ∃ count w',
    w.ackThrough ack = (.ok count, w') ∧ w'.lower = ack + 1 ∧ w'.current = w.current ∧
      (∀ seq, ack + 1 ≤ seq → seq < w.current → w'.panes.get seq = w.panes.get seq) ∧
      w.run ((w.numbersBelow (ack + 1)).map .markAck ++ [.slide (ack + 1)]) =
        (List.replicate (ack + 2 - w.lower) (.done (.ok ())), w')

theorem Valid.addPane_fails (h : w.Valid) (hword : w.current + 1 < limit32) {payload : Bytes}
    {seq : Nat} {stop : Stop} (hstop : (w.addPane payload seq).1 = .error stop) :
    (w.addPane payload seq).2 = w := by
  rw [h.addPane_any hword] at hstop ⊢
  split at hstop
  · rw [if_pos ‹_›]
  · rw [if_neg ‹_›]
    split at hstop
    · rw [if_pos ‹_›]
    · cases hstop

theorem Valid.markAck_fails (h : w.Valid) {seq : Nat} {stop : Stop}
    (hstop : (w.markAck seq).1 = .error stop) : (w.markAck seq).2 = w := by
  rw [h.markAck_any] at hstop ⊢
  split at hstop
  · cases hstop
  · rw [if_neg ‹_›]

theorem slide_fails {newLower : Nat} {stop : Stop}
    (hstop : (w.slide newLower).1 = .error stop) : (w.slide newLower).2 = w := by
  rcases w.slide_cases newLower with ⟨-, hslide⟩ | ⟨-, -, -, hslide⟩
  · rw [hslide]
  · rw [hslide] at hstop
    cases hstop

/-- An acknowledgement fails just when it is of a packet that was not sent, and then as a whole. -/
theorem Seated.ackThrough_fails (h : w.Seated) (ack : Nat) :
    (∀ stop, (w.ackThrough ack).1 = .error stop → (w.ackThrough ack).2 = w) ∧
      ((∃ stop, (w.ackThrough ack).1 = .error stop) ↔ w.current ≤ ack) := by
  have hordered := h.ordered
  rw [h.ackThrough_any]
  split
  · exact ⟨nofun, nofun, fun hle => by omega⟩
  · split
    · rename_i hhi
      exact ⟨fun _ _ => rfl, fun _ => hhi, fun _ => ⟨_, rfl⟩⟩
    · rename_i hhi
      exact ⟨nofun, nofun, fun hle => absurd hle hhi⟩

/-- **A call that fails changes nothing, and no acknowledgement is taken in part.** -/
theorem calls_all_or_nothing (h : Reached size w) : w.AllOrNothing := by
  have hseated := h.usable.seated
  obtain ⟨hvalid, -, -⟩ := h.usable
  exact {
    addPane := fun hnext _ _ _ hstop => hvalid.addPane_fails hnext hstop
    markAck := fun _ _ hstop => hvalid.markAck_fails hstop
    slide := fun _ _ hstop => slide_fails hstop
    ackThrough := fun ack => (hseated.ackThrough_fails ack).1
    ackThrough_fails_iff := fun ack => (hseated.ackThrough_fails ack).2
    ackThrough_old := fun _ => ackThrough_old
    ackThrough_held := fun ack hlo hhi => by
      have hbounded := hvalid.bounded
      have hack := hseated.ackThrough_held ⟨hlo, hhi⟩
      refine ⟨_, _, hack, rfl, rfl, fun seq h1 h2 => ?_, run_of_ackThrough ⟨hlo, hhi⟩ hack⟩
      exact get_passTo_behind h1 (by omega) }

/-- Two packets are added and the second is acknowledged before the first, which cannot be passed yet;
then the first is, and a third is added in its slot. -/
def mixedCalls : List Call :=
  [.addPane [10] 1, .addPane [20] 2, .addPane [30] 3, .markAck 2, .slide 2, .markAck 1, .slide 2,
    .addPane [30] 3]

/-- The first packet has been passed, and the other two are held, of which only the third waits. -/
theorem mixed_in_order : ∃ w, Reached 2 w ∧ w.lower = 2 ∧ w.current = 4 ∧
    (w.panes.get 2).acked = true ∧ (w.panes.get 3).acked = false ∧ w.Sound 2 := by
  obtain ⟨w, hmake⟩ : ∃ w, make 2 = .ok w := ⟨_, rfl⟩
  have hfit : w.AllFit mixedCalls := by
    cases hmake
    decide
  refine ⟨_, (Reached.new hmake).run hfit, ?_, ?_, ?_, ?_, slots_in_order ((Reached.new hmake).run hfit)⟩ <;>
    cases hmake <;> rfl

/-- An acknowledgement of the third packet passes the second one, too, and that of a fourth fails. -/
theorem mixed_all_or_nothing : ∃ w, Reached 2 w ∧ (w.ackThrough 3).1 = .ok 2 ∧
    (w.ackThrough 4).1 = .error (.error (.noSuchPane 4)) ∧ w.AllOrNothing := by
  obtain ⟨w, hmake⟩ : ∃ w, make 2 = .ok w := ⟨_, rfl⟩
  have hfit : w.AllFit mixedCalls := by
    cases hmake
    decide
  refine ⟨_, (Reached.new hmake).run hfit, ?_, ?_, calls_all_or_nothing ((Reached.new hmake).run hfit)⟩ <;>
    cases hmake <;> rfl

end SelectiveReject.SendWindow
