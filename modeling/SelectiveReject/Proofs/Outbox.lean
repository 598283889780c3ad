import SelectiveReject.Proofs.Calls
import Mathlib.Data.List.Find
import Mathlib.Logic.Function.Basic

/-!
# A window answers as a map does

An outbox keeps packets by their numbers, and has neither slots nor anything left over in them: below
`lower` and from `current` on there is nothing.

```
addPane payload current    entry current = (payload, waiting), current + 1
markAck seq                entry seq = (payload, acknowledged)
slide newLower             nothing below newLower, which is lower
```

Whatever a window is asked, it gives the answers of an outbox: what its slots keep of numbers that have
been passed shows in none.
-/

namespace SelectiveReject

/-- A packet that is kept. -/
structure Outbox.Entry where
  payload : Bytes
  acked : Bool

/-- Packets by their numbers, from `lower` up to `current`. -/
@[ext]
structure Outbox where
  size : Nat
  lower : Nat
  current : Nat
  entry : Nat → Option Outbox.Entry

namespace Outbox

def empty (size : Nat) : Outbox := ⟨size, 1, 1, fun _ => none⟩

/-- The packet of the number is kept. -/
def Holds (o : Outbox) (seq : Nat) : Prop := o.lower ≤ seq ∧ seq < o.current

instance (o : Outbox) (seq : Nat) : Decidable (o.Holds seq) :=
  inferInstanceAs (Decidable (_ ∧ _))

/-- Whether a packet is kept and not acknowledged. -/
def waits (o : Outbox) (seq : Nat) : Bool := (o.entry seq).any fun e => !e.acked

def addPane (o : Outbox) (payload : Bytes) (seq : Nat) : Except Error Unit × Outbox :=
  if seq ≠ o.current then (.error (.outOfOrder o.current seq), o)
  else if o.current - o.lower = o.size then (.error (.windowClosed o.lower o.current), o)
  else
    (.ok (), { o with
      entry := Function.update o.entry seq (some ⟨payload, false⟩)
      current := o.current + 1 })

def markAck (o : Outbox) (seq : Nat) : Except Error Unit × Outbox :=
  if o.Holds seq then
    (.ok (), { o with
      entry := Function.update o.entry seq ((o.entry seq).map fun e => { e with acked := true }) })
  else (.error (.noSuchPane seq), o)

/-- Nothing is kept below `newLower`. -/
def dropBelow (o : Outbox) (newLower : Nat) : Outbox :=
  { o with
    lower := newLower
    entry := fun seq => if seq < newLower then none else o.entry seq }

def slide (o : Outbox) (newLower : Nat) : Except Error Unit × Outbox :=
  if newLower < o.lower ∨ o.current < newLower ∨ ∃ seq < newLower, o.waits seq = true then
    (.error (.invalidSlide o.lower newLower o.current), o)
  else (.ok (), o.dropBelow newLower)

def ackThrough (o : Outbox) (ack : Nat) : Except Error Nat × Outbox :=
  if ack < o.lower then (.ok 0, o)
  else if o.current ≤ ack then (.error (.noSuchPane ack), o)
  else (.ok (ack + 1 - o.lower), o.dropBelow (ack + 1))

def pane? (o : Outbox) (seq : Nat) : Option Pane :=
  (o.entry seq).map fun e => ⟨seq, e.payload, e.acked⟩

/-- The least number that waits. -/
def oldestUnacked (o : Outbox) : Option Nat := (List.range o.current).find? o.waits

def allAcked (o : Outbox) : Bool := decide (∀ seq < o.current, o.waits seq = false)

def isOpen (o : Outbox) : Bool := decide (o.current - o.lower < o.size)

/-- Hands the bytes of a packet that waits to a channel. -/
def resend (o : Outbox) (seq : Nat) (flag : Flag) (c : Channel) (link : Link)
    (faults : FaultModel) : Sent :=
  match o.entry seq with
  | some ⟨payload, false⟩ =>
      if payload.length ≤ Packet.maxPayload then
        c.send link faults (Packet.frame ⟨UInt32.ofNat seq, flag, payload⟩)
      else
        ⟨.error (.error (.payloadTooLarge payload.length Packet.maxPayload)), c, faults, none⟩
  | _ => ⟨.error (.error (.noSuchPane seq)), c, faults, none⟩

open SendWindow (Call Answer)

/-- The answer to a call, and the outbox it leaves. -/
def perform (o : Outbox) : Call → Answer × Outbox
  | .addPane payload seq => Prod.map (.done ∘ .mapError .error) id (o.addPane payload seq)
  | .markAck seq => Prod.map (.done ∘ .mapError .error) id (o.markAck seq)
  | .slide newLower => Prod.map (.done ∘ .mapError .error) id (o.slide newLower)
  | .ackThrough ack => Prod.map (.moved ∘ .mapError .error) id (o.ackThrough ack)
  | .pane seq => (.pane (o.pane? seq), o)
  | .oldestUnacked => (.number o.oldestUnacked, o)
  | .allAcked => (.truth (.ok o.allAcked), o)
  | .isOpen => (.truth (.ok o.isOpen), o)
  | .resend seq flag channel link faults => (.sent (o.resend seq flag channel link faults), o)

/-- Makes one call after the other. -/
def run (o : Outbox) : List Call → List Answer × Outbox
  | [] => ([], o)
  | call :: rest =>
      let (answer, o) := o.perform call
      let (answers, o) := o.run rest
      (answer :: answers, o)

end Outbox

namespace SendWindow

/-- The packets that a window keeps. -/
def outbox (w : SendWindow) : Outbox where
  size := w.size
  lower := w.lower
  current := w.current
  entry seq :=
    if w.Holds seq then some ⟨(w.panes.get seq).payload, (w.panes.get seq).acked⟩ else none

variable {w w' : SendWindow} {size seq : Nat}

@[simp] theorem size_outbox : w.outbox.size = w.size := rfl

@[simp] theorem lower_outbox : w.outbox.lower = w.lower := rfl

@[simp] theorem current_outbox : w.outbox.current = w.current := rfl

theorem entry_of_holds (h : w.Holds seq) : w.outbox.entry seq =
    some ⟨(w.panes.get seq).payload, (w.panes.get seq).acked⟩ := if_pos h

theorem entry_of_not_holds (h : ¬ w.Holds seq) : w.outbox.entry seq = none := if_neg h

theorem waits_outbox (h : w.Holds seq) : w.outbox.waits seq = !(w.panes.get seq).acked := by
  rw [Outbox.waits, entry_of_holds h]
  rfl

theorem waits_outbox_iff :
    w.outbox.waits seq = true ↔ w.Holds seq ∧ (w.panes.get seq).acked = false := by
  by_cases hseq : w.Holds seq
  · rw [waits_outbox hseq, Bool.not_eq_true']
    exact ⟨fun hacked => ⟨hseq, hacked⟩, fun hwaits => hwaits.2⟩
  · rw [Outbox.waits, entry_of_not_holds hseq]
    exact ⟨nofun, fun hwaits => absurd hwaits.1 hseq⟩

/-! ## What changes -/

theorem outbox_push (h : w.Valid) (hopen : w.current < w.lower + w.size) (payload : Bytes) :
    (w.push payload).outbox = { w.outbox with
      entry := Function.update w.outbox.entry w.current (some ⟨payload, false⟩)
      current := w.current + 1 } := by
  have hordered := h.ordered
  refine Outbox.ext (size_push payload) rfl rfl (funext fun seq => ?_)
  show (w.push payload).outbox.entry seq = Function.update w.outbox.entry w.current _ seq
  rw [Function.update_apply]
  by_cases heq : seq = w.current
  · subst heq
    have hheld : (w.push payload).Holds w.current := ⟨hordered, Nat.lt_succ_self _⟩
    rw [if_pos rfl, entry_of_holds hheld, push, SlotRing.get_set_self]
  · rw [if_neg heq]
    by_cases hseq : w.Holds seq
    · obtain ⟨hlo, hhi⟩ := hseq
      have hheld : (w.push payload).Holds seq := ⟨hlo, Nat.lt_succ_of_lt hhi⟩
      rw [entry_of_holds ⟨hlo, hhi⟩, entry_of_holds hheld,
        get_push_of_ne (Ne.symm heq) (by omega) (by omega)]
    · rw [entry_of_not_holds hseq]
      refine entry_of_not_holds fun hin => hseq ⟨hin.1, ?_⟩
      exact Nat.lt_of_le_of_ne (Nat.lt_succ_iff.mp hin.2) heq

theorem outbox_marked (h : w.Valid) (hseq : w.Holds seq) :
    (w.marked seq).outbox = { w.outbox with
      entry := Function.update w.outbox.entry seq
        ((w.outbox.entry seq).map fun e => { e with acked := true }) } := by
  have hbounded := h.bounded
  refine Outbox.ext (size_marked seq) rfl rfl (funext fun s => ?_)
  show (w.marked seq).outbox.entry s = Function.update w.outbox.entry seq _ s
  rw [Function.update_apply]
  by_cases heq : s = seq
  · subst heq
    have hheld : (w.marked s).Holds s := hseq
    rw [if_pos rfl, entry_of_holds hseq, entry_of_holds hheld, get_marked, if_pos rfl]
    rfl
  · rw [if_neg heq]
    by_cases hs : w.Holds s
    · obtain ⟨h1, h2⟩ := hs
      obtain ⟨h3, h4⟩ := hseq
      have hheld : (w.marked seq).Holds s := ⟨h1, h2⟩
      rw [entry_of_holds ⟨h1, h2⟩, entry_of_holds hheld, get_marked, if_neg]
      exact fun hmod => heq (SlotRing.eq_of_mod_eq hmod (by omega) (by omega)).symm
    · rw [entry_of_not_holds hs]
      exact entry_of_not_holds hs

theorem outbox_passTo {n : Nat} (h : w.Valid) (hlo : w.lower ≤ n) :
    (w.passTo n).outbox = w.outbox.dropBelow n := by
  have hbounded := h.bounded
  refine Outbox.ext (size_passTo n) rfl rfl (funext fun seq => ?_)
  show (w.passTo n).outbox.entry seq = if seq < n then none else w.outbox.entry seq
  by_cases hpassed : seq < n
  · rw [if_pos hpassed]
    exact entry_of_not_holds fun hin => Nat.not_lt.mpr hin.1 hpassed
  · rw [if_neg hpassed]
    have hbehind : n ≤ seq := Nat.le_of_not_lt hpassed
    by_cases hseq : w.Holds seq
    · have hlt := hseq.2
      have hheld : (w.passTo n).Holds seq := ⟨hbehind, hlt⟩
      rw [entry_of_holds hseq, entry_of_holds hheld, get_passTo_behind hbehind (by omega)]
    · rw [entry_of_not_holds hseq]
      exact entry_of_not_holds fun hin => hseq ⟨Nat.le_trans hlo hbehind, hin.2⟩

/-! ## What is answered -/

theorem pane?_outbox (h : w.Valid) (seq : Nat) : w.pane? seq = w.outbox.pane? seq := by
  unfold pane? Outbox.pane?
  by_cases hseq : w.Holds seq
  · have hoccupant := h.occupant seq hseq
    rw [if_pos ⟨hseq, hoccupant⟩, entry_of_holds hseq, Option.map_some]
    exact congrArg (fun n => some (Pane.mk n _ _)) hoccupant
  · rw [if_neg fun hin => hseq hin.1, entry_of_not_holds hseq]
    rfl

theorem oldestUnacked_outbox (h : w.Valid) : w.oldestUnacked = w.outbox.oldestUnacked := by
  have hrange : List.range w.current =
      List.range' 0 w.lower ++ w.numbersBelow w.current := by
    have happend := @List.range'_append_1 0 w.lower (w.current - w.lower)
    rw [Nat.zero_add, Nat.add_sub_cancel' h.ordered] at happend
    rw [List.range_eq_range']
    exact happend.symm
  have hbelow : (List.range' 0 w.lower).find? w.outbox.waits = none := by
    rw [List.find?_eq_none]
    intro seq hmem hwaits
    have := (waits_outbox_iff.mp hwaits).1.1
    rw [List.mem_range'_1] at hmem
    omega
  unfold oldestUnacked Outbox.oldestUnacked
  show _ = (List.range w.current).find? _
  rw [hrange, List.find?_append, hbelow, Option.none_or]
  refine List.find?_congr fun seq hmem => (waits_outbox ?_).symm
  rw [numbersBelow, List.mem_range'_1] at hmem
  exact ⟨hmem.1, by omega⟩

theorem allAcked_outbox (h : w.Valid) : w.allAcked = w.outbox.allAcked := by
  rw [allAcked, oldestUnacked_outbox h, Outbox.allAcked, Bool.eq_iff_iff, Option.isNone_iff_eq_none,
    Outbox.oldestUnacked, List.find?_eq_none, decide_eq_true_iff]
  simp only [List.mem_range, Bool.not_eq_true]

theorem resendThrough_outbox (h : w.Valid) (seq : Nat) (flag : Flag) (c : Channel) (link : Link)
    (faults : FaultModel) :
    w.resendThrough seq flag c link faults = w.outbox.resend seq flag c link faults := by
  unfold resendThrough Outbox.resend
  by_cases hseq : w.Holds seq
  · have hpane : w.pane? seq = _ := pane?_outbox h seq
    rw [Outbox.pane?, entry_of_holds hseq, Option.map_some] at hpane
    rw [entry_of_holds hseq, resend, hpane]
    cases (w.panes.get seq).acked with
    | true => rfl
    | false =>
        simp only [Option.filter_some, Bool.not_false, if_true, Channel.sendPacket, Packet.encode]
        by_cases hlong : (w.panes.get seq).payload.length ≤ Packet.maxPayload
        · rw [if_pos hlong, if_neg (Nat.not_lt.mpr hlong)]
        · rw [if_neg hlong, if_pos (Nat.lt_of_not_le hlong)]
  · rw [entry_of_not_holds hseq, resend_of_not_holds hseq]

/-! ## Each call -/

theorem addPane_outbox (h : w.Valid) (hword : w.current + 1 < limit32) (payload : Bytes) (seq : Nat) :
    Prod.map id outbox (w.addPane payload seq) =
      Prod.map (.mapError .error) id (w.outbox.addPane payload seq) := by
  have hbounded := h.bounded
  rw [h.addPane_any hword, Outbox.addPane, current_outbox, lower_outbox, size_outbox]
  by_cases hseq : seq = w.current
  · rw [if_neg (not_not_intro hseq), if_neg (not_not_intro hseq)]
    subst hseq
    by_cases hfull : w.current - w.lower = w.size
    · rw [if_pos hfull, if_pos hfull]
      rfl
    · rw [if_neg hfull, if_neg hfull]
      exact congrArg (Prod.mk _) (outbox_push h (by omega) payload)
  · rw [if_pos hseq, if_pos hseq]
    rfl

theorem markAck_outbox (h : w.Valid) (seq : Nat) :
    Prod.map id outbox (w.markAck seq) =
      Prod.map (.mapError .error) id (w.outbox.markAck seq) := by
  rw [h.markAck_any, Outbox.markAck]
  by_cases hseq : w.Holds seq
  · have hin : w.outbox.Holds seq := hseq
    rw [if_pos hseq, if_pos hin]
    exact congrArg (Prod.mk _) (outbox_marked h hseq)
  · have hout : ¬ w.outbox.Holds seq := hseq
    rw [if_neg hseq, if_neg hout]
    rfl

theorem slide_outbox (h : w.Valid) (newLower : Nat) :
    Prod.map id outbox (w.slide newLower) =
      Prod.map (.mapError .error) id (w.outbox.slide newLower) := by
  rw [Outbox.slide, lower_outbox, current_outbox]
  rcases w.slide_cases newLower with ⟨hbad, hslide⟩ | ⟨hlo, hhi, hacked, hslide⟩
  · rw [hslide, if_pos]
    · rfl
    · rcases hbad with hlo | hhi | ⟨seq, h1, h2, hwaits⟩
      · exact Or.inl hlo
      · exact Or.inr (Or.inl hhi)
      · by_cases hhi : w.current < newLower
        · exact Or.inr (Or.inl hhi)
        · exact Or.inr (Or.inr ⟨seq, h2, waits_outbox_iff.mpr ⟨⟨h1, by omega⟩, hwaits⟩⟩)
  · rw [hslide, if_neg]
    · exact congrArg (Prod.mk _) (outbox_passTo h hlo)
    · rintro (hbad | hbad | ⟨seq, h2, hwaits⟩)
      · exact Nat.not_lt.mpr hlo hbad
      · exact Nat.not_lt.mpr hhi hbad
      · obtain ⟨⟨h1, -⟩, hwaits⟩ := waits_outbox_iff.mp hwaits
        rw [hacked seq h1 h2] at hwaits
        cases hwaits

theorem ackThrough_outbox (h : w.Valid) (hword : w.current < limit32) (ack : Nat) :
    Prod.map id outbox (w.ackThrough ack) =
      Prod.map (.mapError .error) id (w.outbox.ackThrough ack) := by
  rw [Outbox.ackThrough, lower_outbox, current_outbox, (h.seated hword).ackThrough_any]
  by_cases hlo : ack < w.lower
  · rw [if_pos hlo, if_pos hlo]
    rfl
  · rw [if_neg hlo, if_neg hlo]
    by_cases hhi : w.current ≤ ack
    · rw [if_pos hhi, if_pos hhi]
      rfl
    · rw [if_neg hhi, if_neg hhi]
      exact congrArg (Prod.mk _) (outbox_passTo h (by omega))

theorem isOpen_outbox (h : w.Valid) : w.isOpen = .ok w.outbox.isOpen := by
  have hordered := h.ordered
  rw [isOpen_eq h, Outbox.isOpen]
  refine congrArg Except.ok (decide_eq_decide.mpr ?_)
  show w.current < w.lower + w.size ↔ w.current - w.lower < w.size
  omega

/-- A call is answered as by the outbox, and leaves the outbox that it leaves. -/
theorem Usable.perform_outbox (h : w.Usable size) {call : Call} (hfits : call.Fits w) :
    Prod.map id outbox (w.perform call) = w.outbox.perform call := by
  obtain ⟨hvalid, -, hword⟩ := h
  cases call with
  | addPane payload seq =>
      exact congrArg (Prod.map Answer.done id) (addPane_outbox hvalid hfits payload seq)
  | markAck seq => exact congrArg (Prod.map Answer.done id) (markAck_outbox hvalid seq)
  | slide newLower => exact congrArg (Prod.map Answer.done id) (slide_outbox hvalid newLower)
  | ackThrough ack =>
      exact congrArg (Prod.map Answer.moved id) (ackThrough_outbox hvalid hword ack)
  | pane seq => exact congrArg (fun pane => (Answer.pane pane, w.outbox)) (pane?_outbox hvalid seq)
  | oldestUnacked =>
      exact congrArg (fun oldest => (Answer.number oldest, w.outbox)) (oldestUnacked_outbox hvalid)
  | allAcked =>
      exact congrArg (fun all => (Answer.truth (.ok all), w.outbox)) (allAcked_outbox hvalid)
  | isOpen =>
      exact congrArg (fun result => (Answer.truth (result.mapError .abort), w.outbox))
        (isOpen_outbox hvalid)
  | resend seq flag c link faults =>
      exact congrArg (fun sent => (Answer.sent sent, w.outbox))
        (resendThrough_outbox hvalid seq flag c link faults)

/-- So is one call after the other. -/
theorem Usable.run_outbox (h : w.Usable size) {calls : List Call} (hfit : w.AllFit calls) :
    Prod.map id outbox (w.run calls) = w.outbox.run calls := by
  induction calls generalizing w with
  | nil => rfl
  | cons call rest ih =>
      have hrest := ih (h.perform hfit.1) hfit.2
      simp only [Outbox.run, ← h.perform_outbox hfit.1]
      show (_, _) = _
      simp only [Prod.map_fst, Prod.map_snd, id, ← hrest]
      rfl

theorem entry_isSome_iff : (w.outbox.entry seq).isSome ↔ w.Holds seq := by
  by_cases hseq : w.Holds seq
  · rw [entry_of_holds hseq]
    exact ⟨fun _ => hseq, fun _ => rfl⟩
  · rw [entry_of_not_holds hseq]
    exact ⟨nofun, fun hin => absurd hin hseq⟩

theorem outbox_new (hpos : 0 < size) :
    outbox ⟨SlotRing.filled size hpos .vacant, 1, 1⟩ = .empty size := by
  refine Outbox.ext (SlotRing.size_filled _ hpos _) rfl rfl ?_
  exact funext fun seq => entry_of_not_holds fun hin => absurd hin.2 (Nat.not_lt.mpr hin.1)

/-- **A new window answers all calls as an empty outbox does, and keeps then what the outbox keeps.** -/
theorem answers_of_outbox (hpos : 1 ≤ size) (hle : size ≤ 229) :
    ∃ w, make size = .ok w ∧ ∀ calls, w.AllFit calls →
      ((w.run calls).1, (w.run calls).2.outbox) = (Outbox.empty size).run calls ∧
      ∀ seq, ((w.run calls).2.outbox.entry seq).isSome ↔ (w.run calls).2.outbox.Holds seq := by
  have hmake := make_eq hpos hle
  refine ⟨_, hmake, fun calls hfit => ⟨?_, fun seq => entry_isSome_iff⟩⟩
  rw [← outbox_new hpos]
  exact (Reached.new hmake).usable.run_outbox hfit

/-- After the first packet has been passed and the second acknowledged, the window is asked for what it
keeps. -/
def questions : List Call :=
  mixedCalls ++ [.pane 1, .pane 2, .oldestUnacked, .allAcked, .isOpen,
    .resend 3 .timeoutData ⟨⟨"receiver", 0⟩, 0, 0⟩ .up .disabled]

theorem questions_answered : ∃ w, make 2 = .ok w ∧ w.AllFit questions ∧
    ((w.run questions).1, (w.run questions).2.outbox) = (Outbox.empty 2).run questions ∧
    ((w.run questions).1.drop 8).take 5 =
      [.pane none, .pane (some ⟨2, [20], true⟩), .number (some 3), .truth (.ok false),
        .truth (.ok false)] := by
  obtain ⟨w, hmake, hrun⟩ := @answers_of_outbox 2 (by decide) (by decide)
  have hfit : w.AllFit questions := by
    cases hmake
    decide
  refine ⟨w, hmake, hfit, (hrun _ hfit).1, ?_⟩
  cases hmake
  rfl

end SendWindow

end SelectiveReject
