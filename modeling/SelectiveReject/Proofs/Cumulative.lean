import SelectiveReject.Proofs.Calls

/-!
# Only the greatest acknowledgement counts

The window behind an acknowledgement is decided by its new `lower` alone:

```
ackThrough ack    lower ≤ ack < current    passTo (ack + 1)
                  otherwise                nothing changes

(w.passTo a).passTo b = w.passTo b         for lower ≤ a ≤ b
```

Of several acknowledgements only the greatest counts, then, among those of packets that were sent.

What is answered is by how much `lower` moves.  Packets that were acknowledged singly before are counted
again, so this is the number of those that are newly acknowledged only if there are none.
-/

namespace SelectiveReject

namespace SendWindow

variable {w w' : SendWindow} {size : Nat}

/-- The windows of a size that calls can lead to, also calls that are broken off because a number leaves
its word. -/
inductive Handled (size : Nat) : SendWindow → Prop
  | new {w : SendWindow} (h : make size = .ok w) : Handled size w
  | call {w : SendWindow} (h : Handled size w) (call : Call) : Handled size (w.perform call).2

theorem Handled.run (h : Handled size w) (calls : List Call) : Handled size (w.run calls).2 := by
  induction calls generalizing w with
  | nil => exact h
  | cons call rest ih => exact ih (h.call call)

/-! ## What every call keeps -/

/-- `lower` moves up, and no slot gets another number. -/
theorem Seated.moved (h : w.Seated) (hlo : w.lower ≤ w'.lower) (hhi : w'.lower ≤ w.current)
    (hcurrent : w'.current = w.current) (hsize : w'.size = w.size)
    (hseq : ∀ seq, (w'.panes.get seq).seq = (w.panes.get seq).seq) : w'.Seated where
  ordered := hcurrent ▸ hhi
  bounded := by
    have := h.bounded
    omega
  word := hcurrent ▸ h.word
  occupant seq hin := (hseq seq).trans (h.occupant seq ⟨Nat.le_trans hlo hin.1, hcurrent ▸ hin.2⟩)

theorem Seated.passTo (h : w.Seated) {n : Nat} (hlo : w.lower ≤ n) (hhi : n ≤ w.current) :
    (w.passTo n).Seated := by
  refine h.moved hlo hhi rfl (size_passTo n) fun seq => ?_
  rw [get_passTo]
  split <;> rfl

/-- A packet comes into the slot of `current`, which no number has that is held. -/
theorem Seated.seat (h : w.Seated) (hopen : w.current < w.lower + w.size) (payload : Bytes) {n : Nat}
    (hlo : w.current ≤ n) (hhi : n ≤ w.current + 1) (hword : n < limit32) :
    Seated ⟨w.panes.set w.current ⟨w.current, payload, false⟩, w.lower, n⟩ where
  ordered := Nat.le_trans h.ordered hlo
  bounded := by
    show n ≤ w.lower + (w.panes.set w.current _).size
    rw [SlotRing.size_set]
    show n ≤ w.lower + w.size
    omega
  word := hword
  occupant seq hseq := by
    obtain ⟨h1, h2⟩ := hseq
    change w.lower ≤ seq at h1
    change seq < n at h2
    have hsize : w.panes.size = w.size := rfl
    by_cases hlast : seq = w.current
    · subst hlast
      exact congrArg Pane.seq (SlotRing.get_set_self _ _ _)
    · rw [SlotRing.get_set_near _ (Ne.symm hlast) (by omega) (by omega)]
      exact h.occupant seq ⟨h1, by omega⟩

theorem Seated.addPane (h : w.Seated) (payload : Bytes) (seq : Nat) :
    (w.addPane payload seq).2.Seated := by
  have hordered := h.ordered
  have hword := h.word
  by_cases hseq : seq = w.current
  · subst hseq
    rw [SendWindow.addPane, if_neg (not_not_intro rfl), inFlight, Word.minus_of_le hordered]
    dsimp only
    split
    · exact h
    · have hopen : w.current < w.lower + w.size := by omega
      split
      · exact h
      · by_cases hnext : w.current + 1 < limit32
        · rw [Word.plus_of_lt hnext]
          exact h.seat hopen payload (Nat.le_succ _) (Nat.le_refl _) hnext
        · -- the packet is in its slot before its number leaves the word
          rw [Word.plus, if_neg hnext]
          exact h.seat hopen payload (Nat.le_refl _) (Nat.le_succ _) hword
  · rw [SendWindow.addPane, if_pos hseq]
    exact h

theorem Seated.markAck (h : w.Seated) (seq : Nat) : (w.markAck seq).2.Seated := by
  unfold SendWindow.markAck
  dsimp only
  split
  · refine h.moved (Nat.le_refl _) h.ordered rfl (size_marked seq) fun s => ?_
    have hget := get_marked (w := w) seq s
    rw [marked] at hget
    rw [hget]
    split <;> rfl
  · exact h

theorem Seated.slide (h : w.Seated) (newLower : Nat) : (w.slide newLower).2.Seated := by
  rcases w.slide_cases newLower with ⟨-, hslide⟩ | ⟨hlo, hhi, -, hslide⟩
  · rw [hslide]
    exact h
  · rw [hslide]
    exact h.passTo hlo hhi

theorem Seated.ackThrough (h : w.Seated) (ack : Nat) : (w.ackThrough ack).2.Seated := by
  rw [h.ackThrough_any]
  split
  · exact h
  · split
    · exact h
    · exact h.passTo (by omega) (by omega)

theorem Handled.seated (h : Handled size w) : w.Seated := by
  induction h with
  | new h =>
      obtain ⟨hvalid, -, hcurrent⟩ := make_valid h
      exact hvalid.seated (by rw [hcurrent]; decide)
  | call _ call ih =>
      cases call with
      | addPane payload seq => exact ih.addPane payload seq
      | markAck seq => exact ih.markAck seq
      | slide newLower => exact ih.slide newLower
      | ackThrough ack => exact ih.ackThrough ack
      | pane | oldestUnacked | allAcked | isOpen | resend => exact ih

/-! ## Acknowledgements in any order -/

/-- The number behind the greatest of some acknowledgements, among those of packets that were sent. -/
def behind (w : SendWindow) (acks : List Nat) : Nat :=
  match (acks.filter (· < w.current)).max? with
  | none => w.lower
  | some ack => max w.lower (ack + 1)

theorem behind_eq_iff {acks : List Nat} {n : Nat} : w.behind acks = n ↔
    w.lower ≤ n ∧ (∀ ack ∈ acks, ack < w.current → ack < n) ∧
      (n = w.lower ∨ ∃ ack ∈ acks, ack < w.current ∧ n = ack + 1) := by
  have hmem : ∀ {ack}, ack ∈ acks.filter (· < w.current) ↔ ack ∈ acks ∧ ack < w.current := by simp
  unfold behind
  cases hmax : (acks.filter (· < w.current)).max? with
  | none =>
      rw [List.max?_eq_none_iff, List.eq_nil_iff_forall_not_mem] at hmax
      constructor
      · rintro rfl
        exact ⟨Nat.le_refl _, fun ack hack hsent => absurd (hmem.mpr ⟨hack, hsent⟩) (hmax ack),
          Or.inl rfl⟩
      · rintro ⟨-, -, rfl | ⟨ack, hack, hsent, -⟩⟩
        · rfl
        · exact absurd (hmem.mpr ⟨hack, hsent⟩) (hmax ack)
  | some top =>
      rw [List.max?_eq_some_iff] at hmax
      obtain ⟨htop, hle⟩ := hmax
      obtain ⟨hin, hsent⟩ := hmem.mp htop
      dsimp only
      constructor
      · rintro rfl
        refine ⟨Nat.le_max_left _ _, fun ack hack hsent' => ?_, ?_⟩
        · have := hle ack (hmem.mpr ⟨hack, hsent'⟩)
          omega
        · rcases Nat.le_total w.lower (top + 1) with hlt | hge
          · exact Or.inr ⟨top, hin, hsent, Nat.max_eq_right hlt⟩
          · exact Or.inl (Nat.max_eq_left hge)
      · rintro ⟨hlo, hall, hn⟩
        have htopn := hall top hin hsent
        rcases hn with rfl | ⟨ack, hack, hsent', rfl⟩
        · omega
        · have := hle ack (hmem.mpr ⟨hack, hsent'⟩)
          omega

/-- With more acknowledgements `lower` moves no less. -/
theorem behind_mono {acks acks' : List Nat} (h : acks ⊆ acks') : w.behind acks ≤ w.behind acks' := by
  obtain ⟨hlo, hall, -⟩ := behind_eq_iff.mp (rfl : w.behind acks' = _)
  obtain ⟨-, -, heq | ⟨ack, hack, hsent, heq⟩⟩ := behind_eq_iff.mp (rfl : w.behind acks = _)
  · rw [heq]
    exact hlo
  · rw [heq]
    exact hall ack (h hack) hsent

theorem behind_congr {acks acks' : List Nat} (h : ∀ ack, ack ∈ acks ↔ ack ∈ acks') :
    w.behind acks = w.behind acks' :=
  Nat.le_antisymm (behind_mono fun ack => (h ack).mp) (behind_mono fun ack => (h ack).mpr)

theorem behind_head_le (w : SendWindow) (ack : Nat) (acks : List Nat) :
    w.behind [ack] ≤ w.behind (ack :: acks) :=
  behind_mono (List.cons_subset_cons ack (List.nil_subset acks))

theorem le_behind (w : SendWindow) (acks : List Nat) : w.lower ≤ w.behind acks :=
  (behind_eq_iff.mp rfl).1

theorem behind_le (hordered : w.lower ≤ w.current) (acks : List Nat) : w.behind acks ≤ w.current := by
  obtain ⟨-, -, heq | ⟨ack, -, hsent, heq⟩⟩ := behind_eq_iff.mp (rfl : w.behind acks = _)
  · exact heq ▸ hordered
  · exact heq ▸ hsent

/-- The first acknowledgement may be taken before the others. -/
theorem behind_cons (ack : Nat) (acks : List Nat) :
    (w.passTo (w.behind [ack])).behind acks = w.behind (ack :: acks) := by
  obtain ⟨-, hall, hn⟩ := behind_eq_iff.mp (rfl : w.behind (ack :: acks) = _)
  obtain ⟨hlo', hall', -⟩ := behind_eq_iff.mp (rfl : w.behind [ack] = _)
  have hle := w.behind_head_le ack acks
  refine behind_eq_iff.mpr ⟨hle, fun a ha => hall a (List.mem_cons_of_mem _ ha), ?_⟩
  rcases hn with heq | ⟨a, ha, hsent, heq⟩
  · exact Or.inl (Nat.le_antisymm (heq ▸ hlo') hle)
  · rcases List.mem_cons.mp ha with rfl | ha
    · exact Or.inl (Nat.le_antisymm (heq ▸ hall' a List.mem_cons_self hsent) hle)
    · exact Or.inr ⟨a, ha, hsent, heq⟩

/-- What one acknowledgement leaves. -/
theorem Seated.ackThrough_snd (h : w.Seated) (ack : Nat) :
    (w.ackThrough ack).2 = w.passTo (w.behind [ack]) := by
  have hunchanged : (ack < w.lower ∨ w.current ≤ ack) → w.passTo (w.behind [ack]) = w := by
    intro hout
    have hbehind : w.behind [ack] = w.lower := by
      refine behind_eq_iff.mpr ⟨Nat.le_refl _, fun a ha hsent => ?_, Or.inl rfl⟩
      obtain rfl := List.mem_singleton.mp ha
      omega
    rw [hbehind, passTo_lower]
  rw [h.ackThrough_any]
  split
  · rename_i hold
    exact (hunchanged (Or.inl hold)).symm
  · split
    · rename_i hunknown
      exact (hunchanged (Or.inr hunknown)).symm
    · have hbehind : w.behind [ack] = ack + 1 := by
        refine behind_eq_iff.mpr ⟨by omega, fun a ha _ => ?_, Or.inr ⟨ack, ?_, by omega, rfl⟩⟩
        · exact List.mem_singleton.mp ha ▸ Nat.lt_succ_self _
        · exact List.mem_cons_self
      rw [hbehind]

/-- What one after the other leaves. -/
theorem Seated.run_acks (h : w.Seated) (acks : List Nat) :
    (w.run (acks.map .ackThrough)).2 = w.passTo (w.behind acks) := by
  induction acks generalizing w with
  | nil => exact (passTo_lower w).symm
  | cons ack acks ih =>
      have hfirst := h.passTo (w.le_behind [ack]) (behind_le h.ordered [ack])
      show ((w.ackThrough ack).2.run (acks.map .ackThrough)).2 = _
      rw [h.ackThrough_snd, ih hfirst, behind_cons,
        passTo_passTo (w.le_behind [ack]) (w.behind_head_le ack acks)]

/-- None is broken off. -/
theorem Seated.answers_acks (h : w.Seated) (acks : List Nat) :
    ∀ answer ∈ (w.run (acks.map .ackThrough)).1, (∃ count, answer = .moved (.ok count)) ∨
      ∃ ack, answer = .moved (.error (.error (.noSuchPane ack))) := by
  induction acks generalizing w with
  | nil => exact fun _ hanswer => absurd hanswer List.not_mem_nil
  | cons ack acks ih =>
      intro answer hanswer
      rcases List.mem_cons.mp hanswer with hfirst | hanswer
      · have hmoved : answer = .moved (w.ackThrough ack).1 := hfirst
        rw [hmoved, h.ackThrough_any]
        split
        · exact Or.inl ⟨_, rfl⟩
        · split
          · exact Or.inr ⟨_, rfl⟩
          · exact Or.inl ⟨_, rfl⟩
      · exact ih (h.ackThrough ack) answer hanswer

/-- **Acknowledgements may come in any order and more than once: the window that they leave is decided by
the greatest of those of packets that were sent.** -/
theorem acks_unordered (h : Handled size w) :
    (∀ acks acks' : List Nat, (∀ ack, ack ∈ acks ↔ ack ∈ acks') →
      (w.run (acks.map .ackThrough)).2 = (w.run (acks'.map .ackThrough)).2) ∧
    ∀ acks : List Nat, (w.run (acks.map .ackThrough)).2.lower = w.behind acks ∧
      ∀ answer ∈ (w.run (acks.map .ackThrough)).1, (∃ count, answer = .moved (.ok count)) ∨
        ∃ ack, answer = .moved (.error (.error (.noSuchPane ack))) := by
  have hseated := h.seated
  refine ⟨fun acks acks' hsame => ?_, fun acks => ⟨?_, hseated.answers_acks acks⟩⟩
  · rw [hseated.run_acks, hseated.run_acks, behind_congr hsame]
  · rw [hseated.run_acks]
    rfl

/-- Two acknowledgements of packets that are held, one of a packet that was not sent, and one that has been
passed, in two orders. -/
theorem mixed_unordered : ∃ w, Handled 2 w ∧ w.lower = 2 ∧ w.current = 4 ∧
    w.run ([3, 9, 2, 3].map .ackThrough) = ([.moved (.ok 2),
      .moved (.error (.error (.noSuchPane 9))), .moved (.ok 0), .moved (.ok 0)],
      (w.run ([2, 3, 9].map .ackThrough)).2) ∧ (w.run ([2, 3, 9].map .ackThrough)).2.lower = 4 := by
  obtain ⟨w, hmake⟩ : ∃ w, make 2 = .ok w := ⟨_, rfl⟩
  have hhandled := (Handled.new hmake).run mixedCalls
  obtain ⟨hsame, hlower⟩ := acks_unordered hhandled
  refine ⟨_, hhandled, ?_, ?_, ?_, ?_⟩
  · cases hmake
    rfl
  · cases hmake
    rfl
  · rw [← hsame [3, 9, 2, 3] [2, 3, 9] (by simp; omega)]
    cases hmake
    rfl
  · rw [(hlower [2, 3, 9]).1]
    cases hmake
    rfl

/-! ## What is counted -/

/-- How many packets wait in the first window and are acknowledged in the second. -/
def newlyAcked (w w' : SendWindow) : Nat :=
  (w.numbersBelow w.current).countP fun seq =>
    !(w.panes.get seq).acked && (w'.panes.get seq).acked

/-- How many packets up to `ack` are acknowledged and have not been passed. -/
def ackedAhead (w : SendWindow) (ack : Nat) : Nat :=
  (w.numbersBelow (ack + 1)).countP fun seq => (w.panes.get seq).acked

theorem ackedAhead_eq_zero_iff {ack : Nat} : w.ackedAhead ack = 0 ↔
    ∀ seq, w.lower ≤ seq → seq ≤ ack → (w.panes.get seq).acked = false := by
  rw [ackedAhead, List.countP_eq_zero]
  constructor
  · intro h seq hlo hhi
    exact Bool.eq_false_iff.mpr (h seq (mem_numbersBelow.mpr ⟨hlo, Nat.lt_succ_of_le hhi⟩))
  · intro h seq hseq
    obtain ⟨hlo, hhi⟩ := mem_numbersBelow.mp hseq
    exact Bool.eq_false_iff.mp (h seq hlo (Nat.le_of_lt_succ hhi))

/-- A window that does not change acknowledges nothing. -/
theorem newlyAcked_self (w : SendWindow) : w.newlyAcked w = 0 := by
  rw [newlyAcked, List.countP_eq_zero]
  intro seq _
  rw [Bool.not_and_self]
  exact Bool.false_ne_true

/-- An acknowledgement in range acknowledges those up to it that still wait. -/
theorem Seated.newlyAcked_passTo (h : w.Seated) {ack : Nat} (hack : w.Holds ack) :
    w.newlyAcked (w.passTo (ack + 1)) + w.ackedAhead ack = ack + 1 - w.lower := by
  obtain ⟨hlo, hhi⟩ := hack
  have hbounded := h.bounded
  have hpassed : (w.numbersBelow (ack + 1)).countP (fun seq =>
      !(w.panes.get seq).acked && ((w.passTo (ack + 1)).panes.get seq).acked) =
      (w.numbersBelow (ack + 1)).countP fun seq => !(w.panes.get seq).acked := by
    refine List.countP_congr fun seq hseq => ?_
    obtain ⟨h1, h2⟩ := mem_numbersBelow.mp hseq
    rw [acked_passTo h1 h2, Bool.and_true]
  have hbehind : (List.range' (ack + 1) (w.current - (ack + 1))).countP (fun seq =>
      !(w.panes.get seq).acked && ((w.passTo (ack + 1)).panes.get seq).acked) = 0 := by
    rw [List.countP_eq_zero]
    intro seq hseq
    rw [List.mem_range'_1] at hseq
    rw [get_passTo_behind hseq.1 (by omega), Bool.not_and_self]
    exact Bool.false_ne_true
  have hlength : (w.numbersBelow (ack + 1)).length = ack + 1 - w.lower := List.length_range'
  have hcount := List.length_eq_countP_add_countP (fun seq => (w.panes.get seq).acked)
    (l := w.numbersBelow (ack + 1))
  rw [newlyAcked, ← numbersBelow_append (Nat.le_succ_of_le hlo) hhi, List.countP_append, hpassed,
    hbehind, ackedAhead]
  simp only [Bool.not_eq_true, Bool.decide_eq_false] at hcount
  omega

/-- **An acknowledgement is answered with the number of packets that it acknowledges, and those that were
acknowledged ahead of it are counted again.** -/
theorem ackThrough_counts (h : Handled size w) {ack count : Nat}
    (hack : w.ackThrough ack = (.ok count, w')) :
    count = w.newlyAcked w' + w.ackedAhead ack ∧
      (count = w.newlyAcked w' ↔
        ∀ seq, w.lower ≤ seq → seq ≤ ack → (w.panes.get seq).acked = false) := by
  have hseated := h.seated
  have hcount : count = w.newlyAcked w' + w.ackedAhead ack := by
    rw [hseated.ackThrough_any] at hack
    split at hack
    · cases hack
      rw [newlyAcked_self, ackedAhead_eq_zero_iff.mpr fun seq hlo hhi => by omega]
    · split at hack
      · cases hack
      · cases hack
        exact (hseated.newlyAcked_passTo ⟨by omega, by omega⟩).symm
  rw [← ackedAhead_eq_zero_iff]
  exact ⟨hcount, by omega⟩

/-- Of the two packets that are held the first is acknowledged, and counted again. -/
theorem mixed_counted : ∃ w w', Handled 2 w ∧ w.ackThrough 3 = (.ok 2, w') ∧
    2 = w.newlyAcked w' + w.ackedAhead 3 ∧ w.ackedAhead 3 = 1 := by
  obtain ⟨w, hmake⟩ : ∃ w, make 2 = .ok w := ⟨_, rfl⟩
  have hhandled := (Handled.new hmake).run mixedCalls
  obtain ⟨w', hack⟩ : ∃ w', (w.run mixedCalls).2.ackThrough 3 = (.ok 2, w') := by
    cases hmake
    exact ⟨_, rfl⟩
  refine ⟨_, w', hhandled, hack, (ackThrough_counts hhandled hack).1, ?_⟩
  cases hmake
  rfl

/-- Two packets are added, and the first is acknowledged singly. -/
def aheadCalls : List Call := [.addPane [10] 1, .addPane [20] 2, .markAck 1]

/-- An acknowledgement of both is answered with two, and only one was not acknowledged before. -/
theorem ahead_counted_again : ∃ w, make 2 = .ok w ∧ Handled 2 (w.run aheadCalls).2 ∧
    ((w.run aheadCalls).2.ackThrough 2).1 = .ok 2 ∧
    (w.run aheadCalls).2.newlyAcked ((w.run aheadCalls).2.ackThrough 2).2 = 1 := by
  obtain ⟨w, hmake⟩ : ∃ w, make 2 = .ok w := ⟨_, rfl⟩
  refine ⟨w, hmake, (Handled.new hmake).run aheadCalls, ?_, ?_⟩ <;> cases hmake <;> rfl

end SendWindow

end SelectiveReject
