import SelectiveReject.SendWindow

/-!
# The window keeps what was sent

A window is `Valid` when its bounds are in order, every number that it holds occupies its slot, and
every other slot may be used.  It `Keeps` a content when each packet that it holds waits unacknowledged
with the payload that the content gives it.  This is how a transfer uses its window: packets are added
at `current`, and acknowledged from `lower` on.  An acknowledgement in range frees the slots of all packets
up to it and leaves every other slot as it was, so the window behind it is decided by its new `lower` alone.

```
current < lower + size → addPane (content current) current   keeps the content, current + 1
lower ≤ ack < current  → ackThrough ack = passTo (ack + 1)    keeps the content, lower = ack + 1
```
-/

namespace SelectiveReject

namespace SlotRing

variable {α : Type} {f g : α → α}

/-- Changes the slots of some numbers, one after the other. -/
def change (r : SlotRing α) (f : α → α) (seqs : List Nat) : SlotRing α :=
  seqs.foldl (fun r seq => r.set seq (f (r.get seq))) r

@[simp] theorem size_change (r : SlotRing α) (f : α → α) (seqs : List Nat) :
    (r.change f seqs).size = r.size := by
  induction seqs generalizing r with
  | nil => rfl
  | cons s rest ih => exact (ih _).trans (size_set _ _ _)

/-- A change that need not be made twice changes the slots of the numbers, each once. -/
theorem get_change (hf : ∀ a, f (f a) = f a) (r : SlotRing α) (seqs : List Nat) (seq : Nat) :
    (r.change f seqs).get seq =
      if ∃ s ∈ seqs, s % r.size = seq % r.size then f (r.get seq) else r.get seq := by
  induction seqs generalizing r with
  | nil => simp [change]
  | cons s rest ih =>
      show ((r.set s (f (r.get s))).change f rest).get seq = _
      simp only [ih, size_set, get_set_map, List.mem_cons, exists_eq_or_imp]
      by_cases hs : s % r.size = seq % r.size
      · rw [if_pos hs, if_pos (Or.inl hs), hf, ite_self]
      · rw [if_neg hs]
        simp only [hs, false_or]

/-- Two changes of the same slots are one. -/
theorem change_change (hf : ∀ a, f (f a) = f a) (hg : ∀ a, g (g a) = g a)
    (hgf : ∀ a, g (f (g (f a))) = g (f a)) (r : SlotRing α) (seqs : List Nat) :
    (r.change f seqs).change g seqs = r.change (g ∘ f) seqs := by
  refine ext_get (by simp only [size_change]) fun seq => ?_
  rw [get_change hg, get_change hf, get_change (f := g ∘ f) hgf, size_change]
  split <;> rfl

/-- Changes that agree on the slots of the numbers are one. -/
theorem change_congr (hf : ∀ a, f (f a) = f a) (hg : ∀ a, g (g a) = g a) (r : SlotRing α)
    {seqs : List Nat} (h : ∀ s ∈ seqs, f (r.get s) = g (r.get s)) :
    r.change f seqs = r.change g seqs := by
  refine ext_get (by simp only [size_change]) fun seq => ?_
  rw [get_change hf, get_change hg]
  split
  · rename_i hs
    obtain ⟨s, hs, hmod⟩ := hs
    rw [← r.get_congr hmod]
    exact h s hs
  · rfl

theorem change_append (r : SlotRing α) (f : α → α) (first rest : List Nat) :
    r.change f (first ++ rest) = (r.change f first).change f rest := List.foldl_append

end SlotRing

/-- The same packet, acknowledged. -/
def Pane.acknowledge (p : Pane) : Pane := { p with acked := true }

/-- The same packet, without its payload. -/
def Pane.forget (p : Pane) : Pane := { p with payload := [] }

namespace SendWindow

/-- The bounds are in order, and every slot is held or free as they say. -/
structure Valid (w : SendWindow) : Prop where
  first : 1 ≤ w.lower
  ordered : w.lower ≤ w.current
  bounded : w.current ≤ w.lower + w.size
  occupant : ∀ seq, w.Holds seq → (w.panes.get seq).seq = seq
  vacant : ∀ seq, w.current ≤ seq → seq < w.lower + w.size → (w.panes.get seq).acked = true

/-- Each packet held waits for its acknowledgement, with its payload. -/
structure Keeps (content : Nat → Bytes) (w : SendWindow) : Prop extends w.Valid where
  kept : ∀ seq, w.Holds seq → w.panes.get seq = ⟨seq, content seq, false⟩

variable {w : SendWindow} {content : Nat → Bytes}

theorem make_eq {size : Nat} (hpos : 0 < size) (hle : size ≤ 229) :
    make size = .ok ⟨SlotRing.filled size hpos .vacant, 1, 1⟩ := by
  have h : 0 < size ∧ size ≤ Parameters.maxWindow := ⟨hpos, hle⟩
  simp only [make, SlotRing.forWindow, dif_pos h, Except.map, Word.firstNumber]

/-- A new window keeps whatever will be sent. -/
theorem keeps_new {size : Nat} (hpos : 0 < size) :
    Keeps content ⟨SlotRing.filled size hpos .vacant, 1, 1⟩ where
  first := Nat.le_refl 1
  ordered := Nat.le_refl 1
  bounded := by simp
  occupant seq h := by
    obtain ⟨h1, h2⟩ := h
    dsimp only at h1 h2
    omega
  vacant seq _ _ := by simp [Pane.vacant]
  kept seq h := by
    obtain ⟨h1, h2⟩ := h
    dsimp only at h1 h2
    omega

/-! ## Adding a packet -/

/-- The window is open as long as its size is not used up. -/
theorem isOpen_eq (h : w.Valid) : w.isOpen = .ok (decide (w.current < w.lower + w.size)) := by
  have hord := h.ordered
  rw [isOpen, inFlight, Word.minus_of_le hord]
  by_cases hlt : w.current < w.lower + w.size
  · have hacked := h.vacant w.current (Nat.le_refl _) hlt
    have hn : w.current - w.lower < w.size := by omega
    simp [Except.map, hacked, hn, hlt]
  · have hn : ¬ w.current - w.lower < w.size := by omega
    simp [Except.map, hn, hlt]

/-- The window with one more packet. -/
def push (w : SendWindow) (payload : Bytes) : SendWindow :=
  ⟨w.panes.set w.current ⟨w.current, payload, false⟩, w.lower, w.current + 1⟩

@[simp] theorem size_push (payload : Bytes) : (w.push payload).size = w.size :=
  SlotRing.size_set _ _ _

theorem addPane_eq (h : w.Valid) (hopen : w.current < w.lower + w.size)
    (hword : w.current + 1 < limit32) (payload : Bytes) :
    w.addPane payload w.current = (.ok (), w.push payload) := by
  have hord := h.ordered
  have hacked := h.vacant w.current (Nat.le_refl _) hopen
  have hn : ¬ w.size ≤ w.current - w.lower := by omega
  simp only [addPane, ne_eq, not_true_eq_false, if_false, inFlight, Word.minus_of_le hord, hn,
    hacked, Bool.not_true, Bool.false_eq_true, Word.plus_of_lt hword]
  rfl

theorem get_push_of_ne {payload : Bytes} {seq : Nat} (hne : w.current ≠ seq)
    (hlo : w.current < seq + w.size) (hhi : seq < w.current + w.size) :
    (w.push payload).panes.get seq = w.panes.get seq :=
  SlotRing.get_set_near _ hne hlo hhi

theorem Valid.push (h : w.Valid) (hopen : w.current < w.lower + w.size) (payload : Bytes) :
    (w.push payload).Valid where
  first := h.first
  ordered := Nat.le_succ_of_le h.ordered
  bounded := by
    rw [size_push]
    exact hopen
  occupant seq hseq := by
    obtain ⟨hlo, hhi⟩ := hseq
    change w.lower ≤ seq at hlo
    change seq < w.current + 1 at hhi
    by_cases heq : w.current = seq
    · subst heq
      rw [SendWindow.push, SlotRing.get_set_self]
    · rw [get_push_of_ne heq (by omega) (by omega)]
      exact h.occupant seq ⟨hlo, by omega⟩
  vacant seq hlo hhi := by
    rw [size_push] at hhi
    change w.current + 1 ≤ seq at hlo
    change seq < w.lower + w.size at hhi
    have := h.ordered
    rw [get_push_of_ne (by omega) (by omega) (by omega)]
    exact h.vacant seq (by omega) hhi

theorem Keeps.push (h : w.Keeps content) (hopen : w.current < w.lower + w.size) :
    (w.push (content w.current)).Keeps content where
  toValid := h.toValid.push hopen _
  kept seq hseq := by
    obtain ⟨hlo, hhi⟩ := hseq
    change w.lower ≤ seq at hlo
    change seq < w.current + 1 at hhi
    by_cases heq : w.current = seq
    · subst heq
      rw [SendWindow.push, SlotRing.get_set_self]
    · rw [get_push_of_ne heq (by omega) (by omega)]
      exact h.kept seq ⟨hlo, by omega⟩

/-! ## Acknowledging -/

/-- The window with one packet acknowledged. -/
def marked (w : SendWindow) (seq : Nat) : SendWindow :=
  { w with panes := w.panes.set seq { w.panes.get seq with acked := true } }

@[simp] theorem size_marked (seq : Nat) : (w.marked seq).size = w.size := SlotRing.size_set _ _ _

theorem get_marked (s seq : Nat) : (w.marked s).panes.get seq =
    if s % w.size = seq % w.size then { w.panes.get seq with acked := true }
    else w.panes.get seq :=
  SlotRing.get_set_map w.panes (fun pane => { pane with acked := true }) s seq

theorem markAck_eq (h : w.Valid) {seq : Nat} (hseq : w.Holds seq) :
    w.markAck seq = (.ok (), w.marked seq) := by
  rw [markAck]
  exact if_pos ⟨hseq, h.occupant seq hseq⟩

theorem Valid.marked (h : w.Valid) (s : Nat) : (w.marked s).Valid where
  first := h.first
  ordered := h.ordered
  bounded := by
    rw [size_marked]
    exact h.bounded
  occupant seq hseq := by
    rw [get_marked]
    split <;> exact h.occupant seq hseq
  vacant seq hlo hhi := by
    rw [size_marked] at hhi
    rw [get_marked]
    split
    · rfl
    · exact h.vacant seq hlo hhi

/-- The bounds are in order and fit their word, and every number that is held occupies its slot. -/
structure Seated (w : SendWindow) : Prop where
  ordered : w.lower ≤ w.current
  bounded : w.current ≤ w.lower + w.size
  word : w.current < limit32
  occupant : ∀ seq, w.Holds seq → (w.panes.get seq).seq = seq

theorem Valid.seated (h : w.Valid) (hword : w.current < limit32) : w.Seated :=
  ⟨h.ordered, h.bounded, hword, h.occupant⟩

theorem mem_numbersBelow {n seq : Nat} : seq ∈ w.numbersBelow n ↔ w.lower ≤ seq ∧ seq < n := by
  rw [numbersBelow, List.mem_range'_1]
  omega

theorem numbersBelow_append {m n : Nat} (hm : w.lower ≤ m) (hn : m ≤ n) :
    w.numbersBelow m ++ List.range' m (n - m) = w.numbersBelow n := by
  have happend := @List.range'_append_1 w.lower (m - w.lower) (n - m)
  rwa [Nat.add_sub_cancel' hm, show m - w.lower + (n - m) = n - w.lower by omega] at happend

/-- The window whose `lower` has moved to `newLower`: the slots it has passed are free. -/
def passTo (w : SendWindow) (newLower : Nat) : SendWindow :=
  { w with
    panes := w.panes.change (Pane.forget ∘ Pane.acknowledge) (w.numbersBelow newLower)
    lower := newLower }

@[simp] theorem size_passTo (n : Nat) : (w.passTo n).size = w.size := SlotRing.size_change _ _ _

theorem passTo_lower (w : SendWindow) : w.passTo w.lower = w := by
  unfold passTo numbersBelow
  rw [Nat.sub_self]
  rfl

theorem passTo_passTo {m n : Nat} (hm : w.lower ≤ m) (hn : m ≤ n) :
    (w.passTo m).passTo n = w.passTo n := by
  have hsplit : w.numbersBelow m ++ (w.passTo m).numbersBelow n = w.numbersBelow n :=
    numbersBelow_append hm hn
  unfold passTo at hsplit ⊢
  rw [← hsplit, SlotRing.change_append]

theorem get_passTo (n seq : Nat) : (w.passTo n).panes.get seq =
    if ∃ s ∈ w.numbersBelow n, s % w.size = seq % w.size then
      (w.panes.get seq).acknowledge.forget
    else w.panes.get seq :=
  SlotRing.get_change (f := Pane.forget ∘ Pane.acknowledge) (fun _ => rfl) w.panes _ seq

/-- The slot of a packet that has been passed is free. -/
theorem acked_passTo {n seq : Nat} (hlo : w.lower ≤ seq) (hhi : seq < n) :
    ((w.passTo n).panes.get seq).acked = true := by
  rw [get_passTo, if_pos ⟨seq, mem_numbersBelow.mpr ⟨hlo, hhi⟩, rfl⟩]
  rfl

/-- The others keep what they have. -/
theorem get_passTo_behind {n seq : Nat} (hlo : n ≤ seq) (hhi : seq < w.lower + w.size) :
    (w.passTo n).panes.get seq = w.panes.get seq := by
  rw [get_passTo, if_neg]
  rintro ⟨s, hs, hmod⟩
  obtain ⟨h1, h2⟩ := mem_numbersBelow.mp hs
  have := SlotRing.eq_of_mod_eq hmod (by omega) (by omega)
  omega

theorem foldl_change {f : Pane → Pane} (seqs : List Nat) (w : SendWindow) :
    seqs.foldl (fun w seq => { w with panes := w.panes.set seq (f (w.panes.get seq)) }) w =
      { w with panes := w.panes.change f seqs } := by
  induction seqs generalizing w with
  | nil => rfl
  | cons s rest ih => exact ih _

/-- Acknowledging packets that are held succeeds. -/
theorem markAll_eq (hoccupant : ∀ seq, w.Holds seq → (w.panes.get seq).seq = seq)
    (seqs : List Nat) (hheld : ∀ s ∈ seqs, w.Holds s) :
    w.markAll seqs = (.ok (), { w with panes := w.panes.change Pane.acknowledge seqs }) := by
  induction seqs generalizing w with
  | nil => rfl
  | cons s rest ih =>
      have hs : w.Holds s := hheld s List.mem_cons_self
      have hmark : w.markAck s = (.ok (), w.marked s) := if_pos ⟨hs, hoccupant s hs⟩
      have hmarked : ∀ seq, (w.marked s).Holds seq → ((w.marked s).panes.get seq).seq = seq := by
        intro seq hseq
        rw [get_marked]
        split <;> exact hoccupant seq hseq
      rw [markAll, hmark]
      exact ih hmarked fun s' hs' => hheld s' (List.mem_cons_of_mem _ hs')

/-- Sliding over acknowledged packets frees their slots. -/
theorem slide_eq {newLower : Nat} (hlo : w.lower ≤ newLower) (hhi : newLower ≤ w.current)
    (hacked : ∀ s ∈ w.numbersBelow newLower, (w.panes.get s).acked = true) :
    w.slide newLower = (.ok (), w.passTo newLower) := by
  have hfold : (w.numbersBelow newLower).foldl release w = _ := foldl_change (f := Pane.forget) _ w
  have hfreed : w.panes.change Pane.forget (w.numbersBelow newLower) =
      w.panes.change (Pane.forget ∘ Pane.acknowledge) (w.numbersBelow newLower) := by
    refine SlotRing.change_congr (f := Pane.forget) (g := Pane.forget ∘ Pane.acknowledge)
      (fun _ => rfl) (fun _ => rfl) _ fun s hs => ?_
    have hsame : (w.panes.get s).acknowledge = w.panes.get s := by
      rw [Pane.acknowledge, ← hacked s hs]
    rw [Function.comp_apply, hsame]
  rw [slide, if_neg, hfold, hfreed]
  · rfl
  · rintro (hbad | hbad | hbad)
    · exact Nat.not_lt.mpr hlo hbad
    · exact Nat.not_lt.mpr hhi hbad
    · obtain ⟨s, hs, hwaits⟩ := List.any_eq_true.mp hbad
      rw [hacked s hs] at hwaits
      cases hwaits

/-- An acknowledgement that has been passed changes nothing. -/
theorem ackThrough_old {ack : Nat} (h : ack < w.lower) : w.ackThrough ack = (.ok 0, w) := if_pos h

/-- An acknowledgement of a packet that was not sent changes nothing. -/
theorem ackThrough_unknown {ack : Nat} (hord : w.lower ≤ w.current) (h : w.current ≤ ack) :
    w.ackThrough ack = (.error (.error (.noSuchPane ack)), w) := by
  rw [ackThrough, if_neg (by omega), if_pos h]

/-- An acknowledgement of a packet that is held passes it and all before it. -/
theorem Seated.ackThrough_held (h : w.Seated) {ack : Nat} (hack : w.Holds ack) :
    w.ackThrough ack = (.ok (ack + 1 - w.lower), w.passTo (ack + 1)) := by
  obtain ⟨hlo, hhi⟩ := hack
  have hword := h.word
  have hmark := markAll_eq h.occupant (w.numbersBelow (ack + 1)) fun s hs => by
    obtain ⟨h1, h2⟩ := mem_numbersBelow.mp hs
    exact ⟨h1, by omega⟩
  have hslide := slide_eq
    (w := { w with panes := w.panes.change Pane.acknowledge (w.numbersBelow (ack + 1)) })
    (Nat.le_succ_of_le hlo) hhi fun s hs => by
      rw [SlotRing.get_change (f := Pane.acknowledge) fun _ => rfl, if_pos ⟨s, hs, rfl⟩]
      rfl
  rw [ackThrough, if_neg (by omega), if_neg (by omega), hmark]
  simp only [Word.plus_of_lt (show ack + 1 < limit32 by omega), hslide]
  -- a slot that is acknowledged before it is freed is changed once
  have hfreed := SlotRing.change_change (f := Pane.acknowledge) (g := Pane.forget ∘ Pane.acknowledge)
    (fun _ => rfl) (fun _ => rfl) (fun _ => rfl) w.panes (w.numbersBelow (ack + 1))
  exact congrArg (fun panes => (Except.ok (ack + 1 - w.lower), SendWindow.mk panes _ _)) hfreed

/-- An acknowledgement passes what it can. -/
theorem Seated.ackThrough_any (h : w.Seated) (ack : Nat) :
    w.ackThrough ack =
      if ack < w.lower then (.ok 0, w)
      else if w.current ≤ ack then (.error (.error (.noSuchPane ack)), w)
      else (.ok (ack + 1 - w.lower), w.passTo (ack + 1)) := by
  have hordered := h.ordered
  by_cases hlo : ack < w.lower
  · rw [if_pos hlo]
    exact ackThrough_old hlo
  · rw [if_neg hlo]
    by_cases hhi : w.current ≤ ack
    · rw [if_pos hhi]
      exact ackThrough_unknown hordered hhi
    · rw [if_neg hhi]
      exact h.ackThrough_held ⟨by omega, by omega⟩

theorem Valid.passTo (h : w.Valid) {n : Nat} (hlo : w.lower ≤ n) (hhi : n ≤ w.current) :
    (w.passTo n).Valid where
  first := Nat.le_trans h.first hlo
  ordered := hhi
  bounded := by
    have := h.bounded
    rw [size_passTo]
    show w.current ≤ n + w.size
    omega
  occupant seq hseq := by
    have hheld := h.occupant seq ⟨Nat.le_trans hlo hseq.1, hseq.2⟩
    rw [get_passTo]
    split <;> exact hheld
  vacant seq h1 h2 := by
    change w.current ≤ seq at h1
    rw [size_passTo] at h2
    change seq < n + w.size at h2
    rw [get_passTo]
    split
    · rfl
    · rename_i hnot
      refine h.vacant seq h1 (Nat.lt_of_not_le fun hfar => hnot ?_)
      -- the slot belonged to a number that was passed
      refine ⟨seq - w.size, mem_numbersBelow.mpr ⟨by omega, by omega⟩, ?_⟩
      rw [← Nat.add_mod_right, Nat.sub_add_cancel (by omega)]

/-- The window still keeps its content behind an acknowledgement. -/
theorem Keeps.passTo (h : w.Keeps content) {n : Nat} (hlo : w.lower ≤ n) (hhi : n ≤ w.current) :
    (w.passTo n).Keeps content where
  toValid := h.toValid.passTo hlo hhi
  kept seq hseq := by
    have hbounded := h.bounded
    obtain ⟨h1, h2⟩ := hseq
    change n ≤ seq at h1
    change seq < w.current at h2
    rw [get_passTo_behind h1 (by omega)]
    exact h.kept seq ⟨by omega, h2⟩

/-! ## Sending again -/

/-- A packet that is held is sent again with its payload. -/
theorem Keeps.resend_eq (h : w.Keeps content) {seq : Nat} (hseq : w.Holds seq) (flag : Flag) :
    w.resend seq flag = .ok ⟨UInt32.ofNat seq, flag, content seq⟩ := by
  have hpane : w.pane? seq = some ⟨seq, content seq, false⟩ := by
    simp only [pane?, h.kept seq hseq, hseq, true_and, if_true]
  simp only [resend, hpane, Option.filter_some, Bool.not_false, if_true]

theorem resend_of_not_holds {seq : Nat} (hseq : ¬ w.Holds seq) (flag : Flag) :
    w.resend seq flag = .error (.noSuchPane seq) := by
  have hpane : w.pane? seq = none := by
    simp only [pane?, hseq, false_and, if_false]
  simp only [resend, hpane, Option.filter_none]

/-- The oldest packet that waits is `lower`, if any does. -/
theorem Keeps.oldestUnacked_eq (h : w.Keeps content) :
    w.oldestUnacked = if w.lower < w.current then some w.lower else none := by
  unfold oldestUnacked numbersBelow
  split
  · rename_i hlt
    obtain ⟨n, hn⟩ : ∃ n, w.current - w.lower = n + 1 := ⟨w.current - w.lower - 1, by omega⟩
    rw [hn, List.range'_succ, List.find?_cons, h.kept w.lower ⟨Nat.le_refl _, hlt⟩]
    rfl
  · rename_i hlt
    have hn : w.current - w.lower = 0 := by omega
    rw [hn]
    rfl

end SendWindow

end SelectiveReject
