import SelectiveReject.Proofs.Sending
import SelectiveReject.Scenario.Encounter

/-!
# The window of any upload

Some files have more pieces than there are numbers.  As long as it does not stop, an upload of any file has a
window that is in order and keeps packets that have been sent, whatever its client sends; and it stops for
no packet of the client.

```
sending     the next packet is pushed, or nothing changes
listening   an acknowledgement passes some packets, or nothing changes
```
-/

namespace SelectiveReject

open Scenario

namespace SendWindow

variable {w : SendWindow} {content : Nat → Bytes}

/-- A packet is added to an open window unless the numbers are used up. -/
theorem addPane_cases (h : w.Valid) (hopen : w.current < w.lower + w.size) (payload : Bytes) :
    (w.current + 1 < limit32 ∧ w.addPane payload w.current = (.ok (), w.push payload)) ∨
      ∃ a window, w.addPane payload w.current = (.error (.abort a), window) := by
  by_cases hword : w.current + 1 < limit32
  · exact Or.inl ⟨hword, addPane_eq h hopen hword payload⟩
  · have hplus : Word.plus w.current 1 = .error .overflow := if_neg hword
    have hord := h.ordered
    have hacked := h.vacant w.current (Nat.le_refl _) hopen
    have hn : ¬ w.size ≤ w.current - w.lower := by omega
    right
    simp only [addPane, ne_eq, not_true_eq_false, if_false, inFlight, Word.minus_of_le hord, hn, hacked,
      Bool.not_true, Bool.false_eq_true, hplus]
    exact ⟨_, _, rfl⟩

/-- The window keeps one more packet, whatever its payload is. -/
theorem Keeps.push_any (h : w.Keeps content) (hopen : w.current < w.lower + w.size) (payload : Bytes) :
    (w.push payload).Keeps fun seq => if seq = w.current then payload else content seq := by
  have hkeeps : w.Keeps fun seq => if seq = w.current then payload else content seq := by
    refine ⟨h.toValid, fun seq hseq => ?_⟩
    rw [h.kept seq hseq, if_neg (Nat.ne_of_lt hseq.2)]
  have hpush := hkeeps.push hopen
  simp only [if_true] at hpush
  exact hpush

end SendWindow

namespace Serving

variable {s s' : Serving} {goal : Goal} {activity activity' : Activity} {log : List Deed}
  {queue queue' : List Arrival} {sent : List Packet} {limit : Nat}

/-- What a step does to the window of an upload. -/
inductive Shifts (s : Serving) : Serving → List Packet → Prop
  | same (s' : Serving) (sent : List Packet) (hwindow : s'.window = s.window) : Shifts s s' sent
  | pushed (s' : Serving) (chunk : Bytes) (hopen : s.Open) (hword : s.window.current + 1 < limit32)
      (hwindow : s'.window = s.window.push chunk) :
      Shifts s s' [⟨UInt32.ofNat s.window.current, .data, chunk⟩]
  | passed (s' : Serving) (seq : Nat) (hseq : s.window.Holds seq)
      (hwindow : s'.window = s.window.passTo (seq + 1)) : Shifts s s' []

theorem resend_window (s : Serving) (seq : Nat) (flag : Flag) :
    (s.resend seq flag).1.window = s.window := by
  unfold resend
  split <;> rfl

theorem sendNext_shifts (h : s.window.Valid) (hopen : s.Open)
    (hstep : s.sendNext queue = .next (.serving s' activity') queue' sent) : s.Shifts s' sent := by
  unfold sendNext at hstep
  split at hstep
  · cases hstep
  · split at hstep
    · cases hstep
      exact .same _ _ rfl
    · rename_i chunk _ _ _
      dsimp only at hstep
      rcases SendWindow.addPane_cases h hopen chunk with ⟨hword, hadd⟩ | ⟨a, window, hadd⟩
      · rw [hadd] at hstep
        cases hstep
        exact .pushed _ _ hopen hword rfl
      · rw [hadd] at hstep
        cases hstep

/-- Nothing that a client sends can stop an upload. -/
theorem feedback_shifts (h : s.window.Valid) (hword : s.window.current < limit32) (goal : Goal)
    (packet : Packet) (queue : List Arrival) :
    ∃ s' activity' sent, s.feedback goal packet queue = .next (.serving s' activity') queue sent ∧
      s.Shifts s' sent := by
  unfold feedback
  cases hflag : packet.flag with
  | ack =>
      simp only
      by_cases hseq : s.window.Holds packet.seq
      · rw [(h.seated hword).ackThrough_held hseq]
        exact ⟨_, _, _, rfl, .passed _ packet.seq hseq rfl⟩
      · by_cases hold : packet.seq < s.window.lower
        · rw [SendWindow.ackThrough_old hold]
          exact ⟨_, _, _, rfl, .same _ _ rfl⟩
        · have hunknown : s.window.current ≤ packet.seq := by
            rcases Nat.lt_or_ge packet.seq s.window.current with hlt | hge
            · exact absurd ⟨by omega, hlt⟩ hseq
            · exact hge
          rw [SendWindow.ackThrough_unknown h.ordered hunknown]
          exact ⟨_, _, _, rfl, .same _ _ rfl⟩
  | srej => exact ⟨_, _, _, rfl, .same _ _ (resend_window _ _ _)⟩
  | eofAck | fname | fnameOk | endOfFile | data | srejData | timeoutData | fnameBad =>
      exact ⟨_, _, _, rfl, .same _ _ rfl⟩

theorem hear_shifts (h : s.window.Valid) (hword : s.window.current < limit32) (goal : Goal)
    (x : Arrival) (queue : List Arrival) :
    ∃ s' activity' sent, s.hear goal x queue = .next (.serving s' activity') queue sent ∧
      s.Shifts s' sent := by
  unfold hear
  split
  · exact ⟨_, _, _, rfl, .same _ _ rfl⟩
  · split
    · exact feedback_shifts h hword goal _ queue
    · exact ⟨_, _, _, rfl, .same _ _ rfl⟩
    · exact ⟨_, _, _, rfl, .same _ _ rfl⟩

theorem beginWait_shifts (hstep : s.beginWait goal queue = .next (.serving s' activity') queue' sent) :
    s.Shifts s' sent := by
  unfold beginWait at hstep
  split at hstep
  · cases hstep
  · cases hstep
  · rename_i retry hattempt
    cases hstep
    exact .same _ _ rfl

theorem heardAll_shifts (hstep : s.heardAll goal = .next (.serving s' activity') queue' sent) :
    s.Shifts s' sent := by
  cases goal with
  | more =>
      cases hstep
      exact .same _ _ rfl
  | farewell => exact beginWait_shifts hstep
  | room =>
      unfold heardAll at hstep
      dsimp only at hstep
      split at hstep
      · cases hstep
      · cases hstep
        exact .same _ _ rfl
      · exact beginWait_shifts hstep

theorem catchUp_shifts (hstep : s.catchUp goal queue = .next (.serving s' activity') queue' sent) :
    s.Shifts s' sent := by
  unfold catchUp at hstep
  split at hstep
  · cases hstep
    exact .same _ _ (resend_window _ _ _)
  · cases hstep
    exact .same _ _ rfl
  · cases hstep
    exact .same _ _ rfl

/-- Every step leaves the window as it is, or adds a packet to it, or passes some. -/
theorem step_shifts (h : s.window.Valid) (hword : s.window.current < limit32)
    (hstep : s.step queue activity = .next (.serving s' activity') queue' sent) : s.Shifts s' sent := by
  cases activity with
  | sending =>
      unfold step at hstep
      rw [SendWindow.isOpen_eq h] at hstep
      by_cases hopen : s.Open
      · rw [show decide (s.window.current < s.window.lower + s.window.size) = true from
          decide_eq_true hopen] at hstep
        exact sendNext_shifts h hopen hstep
      · rw [show decide (s.window.current < s.window.lower + s.window.size) = false from
          decide_eq_false hopen] at hstep
        cases hstep
        exact .same _ _ rfl
  | listening goal =>
      cases queue with
      | nil => exact heardAll_shifts hstep
      | cons x queue =>
          obtain ⟨_, _, _, hheard, hshifts⟩ := hear_shifts h hword goal x queue
          cases hheard.symm.trans hstep
          exact hshifts
  | waiting goal =>
      cases queue with
      | nil => cases hstep
      | cons x queue =>
          cases hstep
          exact .same _ _ rfl
  | overdue goal => exact catchUp_shifts hstep
  | done => cases hstep

/-- The window keeps packets that have been sent, and its numbers fit their word. -/
structure Kept (s : Serving) (log : List Deed) : Prop where
  window : ∃ content, s.window.Keeps content ∧ ∀ seq, s.window.Holds seq →
    .sent ⟨UInt32.ofNat seq, .data, content seq⟩ ∈ log
  word : s.window.current < limit32

theorem Kept.valid (h : s.Kept log) : s.window.Valid := by
  obtain ⟨content, hkeeps, -⟩ := h.window
  exact hkeeps.toValid

theorem Kept.shifts (h : s.Kept log) (hs : s.Shifts s' sent) {more : List Deed}
    (hmore : ∀ p ∈ sent, .sent p ∈ more) : s'.Kept (log ++ more) := by
  obtain ⟨content, hkeeps, hsent⟩ := h.window
  have hword := h.word
  have hlog : ∀ {d : Deed}, d ∈ log → d ∈ log ++ more := fun hd => List.mem_append_left _ hd
  cases hs with
  | same _ hwindow =>
      refine ⟨⟨content, ?_⟩, ?_⟩
      · rw [hwindow]
        exact ⟨hkeeps, fun seq hseq => hlog (hsent seq hseq)⟩
      · rw [hwindow]
        exact hword
  | pushed chunk hopen hnext hwindow =>
      refine ⟨⟨_, hwindow ▸ hkeeps.push_any hopen chunk, fun seq hseq => ?_⟩, ?_⟩
      · by_cases heq : seq = s.window.current
        · rw [if_pos heq, heq]
          exact List.mem_append_right _ (hmore _ (List.mem_singleton.mpr rfl))
        · rw [if_neg heq]
          rw [hwindow] at hseq
          have hlo : s.window.lower ≤ seq := hseq.1
          have hhi : seq < s.window.current + 1 := hseq.2
          exact hlog (hsent seq ⟨hlo, by omega⟩)
      · rw [hwindow]
        exact hnext
  | passed seq hseq hwindow =>
      obtain ⟨hheld, hhi⟩ := hseq
      refine ⟨⟨content, ?_⟩, ?_⟩
      · rw [hwindow]
        refine ⟨hkeeps.passTo (Nat.le_succ_of_le hheld) hhi, fun n hn => ?_⟩
        have hlo : seq + 1 ≤ n := hn.1
        exact hlog (hsent n ⟨by omega, hn.2⟩)
      · rw [hwindow]
        exact hword

end Serving

end SelectiveReject
