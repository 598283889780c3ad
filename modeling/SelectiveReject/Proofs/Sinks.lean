import SelectiveReject.Download

/-!
# What the file on this side decides

A session writes to a sink, and nothing that it keeps or answers depends on the sink, but whether a run
of packets is written.  So a packet that is taken with one sink is taken with any other in the same way,
or that other fails, and this is the error of taking the packet:

```
s.take t p = .ok r  →  (s.into sink).take t p = .ok (r.into sink')  or  .error sinkFull
```
-/

namespace SelectiveReject

namespace ReorderBuffer

/-- Another sink takes the same run, or fails. -/
theorem writeRun_into (count : Nat) : ∀ (b : ReorderBuffer) (sink other : Sink) (total n : Nat)
    (b' : ReorderBuffer) (sink' : Sink), b.writeRun sink total count = (.ok n, b', sink') →
    (∃ other', b.writeRun other total count = (.ok n, b', other')) ∨
      ∃ b'' other', b.writeRun other total count = (.error (.error sinkFull), b'', other') := by
  induction count with
  | zero =>
      intro b sink other total n b' sink' h
      cases h
      exact Or.inl ⟨other, rfl⟩
  | succ count ih =>
      intro b sink other total n b' sink' h
      unfold writeRun at h ⊢
      cases hdata : b.slots.get b.next with
      | none =>
          simp only [hdata] at h
          cases h
          exact Or.inl ⟨other, rfl⟩
      | some data =>
          simp only [hdata] at h ⊢
          -- whether and what each sink takes does not matter, only that the first has taken it
          generalize sink.write data = wrote at h
          generalize other.write data = wrote'
          obtain ⟨whole, sink₁⟩ := wrote
          obtain ⟨whole', other₁⟩ := wrote'
          cases whole with
          | false => cases h
          | true =>
              dsimp only at h
              split at h
              · cases whole' with
                | false => exact Or.inr ⟨_, _, rfl⟩
                | true => exact ih _ sink₁ other₁ _ n b' sink' h
              · cases h
              · cases h

theorem flush_into {b b' : ReorderBuffer} {sink sink' : Sink} {n : Nat}
    (h : b.flush sink = (.ok n, b', sink')) (other : Sink) :
    (∃ other', b.flush other = (.ok n, b', other')) ∨
      ∃ b'' other', b.flush other = (.error (.error sinkFull), b'', other') := by
  unfold flush at h
  split at h
  · rename_i total written sink₁ hrun
    cases h
    rcases writeRun_into b.size b sink other 0 n written _ hrun with
      ⟨other', hother⟩ | ⟨b'', other', hother⟩
    · exact Or.inl ⟨other', by rw [flush, hother]⟩
    · exact Or.inr ⟨b'', other', by rw [flush, hother]⟩
  · rename_i hstopped
    exact (hstopped _ _ _ h).elim

end ReorderBuffer

/-- The session with another file on this side. -/
def Session.into (s : Session) (sink : Sink) : Session := { s with sink := sink }

/-- The reply of a session with another file on this side. -/
def Reply.into (r : Reply) (sink : Sink) : Reply := { r with session := r.session.into sink }

namespace Session

variable {s : Session} {t : Statistics} {r : Reply} {payload : Bytes} {seq : Nat}

theorem askAgain_into (s : Session) (sink : Sink) (t : Statistics) (sent : List Packet) :
    (s.into sink).askAgain t sent = (s.askAgain t sent).map (Reply.into · sink) := by
  unfold askAgain
  rw [show (s.into sink).buffer = s.buffer from rfl]
  cases s.buffer.lowestMissing <;> rfl

theorem takeLater_into (s : Session) (sink : Sink) (t : Statistics) (payload : Bytes) (seq : Nat) :
    (s.into sink).takeLater t payload seq = (s.takeLater t payload seq).map (Reply.into · sink) := by
  unfold takeLater
  rw [show (s.into sink).buffer = s.buffer from rfl]
  split
  · exact askAgain_into ⟨_, s.sink⟩ sink _ _
  · exact askAgain_into ⟨_, s.sink⟩ sink _ _
  · exact askAgain_into ⟨_, s.sink⟩ sink _ _
  · rfl

/-- The answer to a packet that was written: what is there, and what is missing. -/
def report (s : Session) (t : Statistics) : Except Stop Reply :=
  match s.acknowledge t with
  | .error e => .error e
  | .ok (t, ack) =>
      match s.buffer.lowestMissing with
      | .error a => .error (.abort a)
      | .ok none => .ok ⟨s, t, [ack], false⟩
      | .ok (some _) => s.askAgain t [ack]

theorem report_into (s : Session) (sink : Sink) (t : Statistics) :
    (s.into sink).report t = (s.report t).map (Reply.into · sink) := by
  unfold report
  rw [show (s.into sink).acknowledge = s.acknowledge from rfl,
    show (s.into sink).buffer = s.buffer from rfl]
  cases s.acknowledge t with
  | error e => rfl
  | ok answer =>
      cases s.buffer.lowestMissing with
      | error a => rfl
      | ok missing =>
          cases missing with
          | none => rfl
          | some gap => exact askAgain_into s sink answer.1 [answer.2]

/-- The packet `next` is taken with any file that can be written. -/
theorem takeNext_into (h : s.takeNext t payload seq = .ok r) (sink : Sink) :
    (∃ sink', (s.into sink).takeNext t payload seq = .ok (r.into sink')) ∨
      (s.into sink).takeNext t payload seq = .error (.error ReorderBuffer.sinkFull) := by
  unfold takeNext at h ⊢
  rw [show (s.into sink).buffer = s.buffer from rfl]
  split at h
  · cases h
  · split at h
    · cases h
    · rename_i buffer sink₁ hflush
      have hreport : report ⟨buffer, sink₁⟩ t = .ok r := h
      rcases ReorderBuffer.flush_into hflush sink with ⟨sink', hother⟩ | ⟨b', sink', hother⟩
      · left
        refine ⟨sink', ?_⟩
        simp only [into, hother]
        show report ⟨buffer, sink'⟩ t = _
        rw [show (⟨buffer, sink'⟩ : Session) = into ⟨buffer, sink₁⟩ sink' from rfl, report_into, hreport]
        rfl
      · right
        simp only [into, hother]

/-- A packet that is taken with one file is taken with any other, unless that cannot be written. -/
theorem take_into {p : Packet} (h : s.take t p = .ok r) (sink : Sink) :
    (∃ sink', (s.into sink).take t p = .ok (r.into sink')) ∨
      (s.into sink).take t p = .error (.error ReorderBuffer.sinkFull) := by
  have hmap : ∀ {taken other : Except Stop Reply}, taken = .ok r →
      other = taken.map (Reply.into · sink) → ∃ sink', other = .ok (r.into sink') := by
    rintro _ _ rfl rfl
    exact ⟨sink, rfl⟩
  unfold take takeData at h ⊢
  rw [show (s.into sink).buffer = s.buffer from rfl]
  split at h
  · rename_i hdata
    rw [if_pos hdata]
    split at h
    · rename_i hold
      rw [if_pos hold]
      refine Or.inl (hmap h ?_)
      rw [show (s.into sink).acknowledge = s.acknowledge from rfl]
      cases s.acknowledge { t with duplicatePackets := t.duplicatePackets + 1 } <;> rfl
    · rename_i hold
      rw [if_neg hold]
      split at h
      · rename_i hnow
        rw [if_pos hnow]
        exact takeNext_into h sink
      · rename_i hnow
        rw [if_neg hnow]
        exact Or.inl (hmap h (takeLater_into s sink t _ _))
  · rename_i hdata
    rw [if_neg hdata]
    split at h
    · rename_i hend
      rw [if_pos hend]
      exact Or.inl (hmap h rfl)
    · rename_i hend
      rw [if_neg hend]
      split at h
      · rename_i hearly
        rw [if_pos hearly]
        exact Or.inl (hmap h (askAgain_into s sink t []))
      · rename_i hearly
        rw [if_neg hearly]
        exact Or.inl (hmap h rfl)

end Session

end SelectiveReject
