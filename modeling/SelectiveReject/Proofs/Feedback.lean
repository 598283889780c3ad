import SelectiveReject.Proofs.DownloadEndings
import SelectiveReject.Proofs.Gaps

/-!
# What a receiver answers

Between packets everything that could be written has been.  So the slot of `next` is empty, and whatever is
held comes behind it.  The number that is asked for is then always `next`, both when it is found in the
slots and when nothing is held and it stands in.  With `next'` for the number after the packet was taken,
the answers are these:

```
data,         seq < next     ack (next' - 1)
data,         seq = next     ack (next' - 1), and srej next' if more is held
data or end,  next < seq     srej next'
end,          seq = next     eofAck next
any other packet             nothing
```

A packet is received when it comes within the window; the buffer refuses one from further on, and this one
may be asked for later.
-/

namespace SelectiveReject

namespace ReorderBuffer

/-- Some packet from behind `next` is held. -/
def HoldsMore (b : ReorderBuffer) : Prop := ∃ seq ∈ b.range, b.next < seq ∧ (b.holding seq).isSome

instance (b : ReorderBuffer) : Decidable b.HoldsMore :=
  inferInstanceAs (Decidable (∃ seq ∈ b.range, _))

end ReorderBuffer

namespace Session

/-- A packet is to be asked for: another has come too early, or still waits for it. -/
def Asks (s : Session) (p : Packet) (s' : Session) : Prop :=
  (p.flag.isData = true ∨ p.flag = .endOfFile) ∧ s.next < p.seq ∨
    p.flag.isData = true ∧ p.seq = s.next ∧ s'.buffer.HoldsMore

instance (s : Session) (p : Packet) (s' : Session) : Decidable (s.Asks p s') :=
  inferInstanceAs (Decidable (_ ∨ _))

/-- The answer to a packet, by the session that takes it and the one that has taken it. -/
def feedback (s : Session) (p : Packet) (s' : Session) : List Packet :=
  (if p.flag.isData = true ∧ p.seq ≤ s.next then [.control .ack (s'.next - 1)] else []) ++
    (if s.Asks p s' then [.control .srej s'.next] else []) ++
    (if p.flag = .endOfFile ∧ p.seq = s.next then [.control .eofAck s.next] else [])

end Session

/-- A packet, the session that takes it, and what this session makes of it. -/
structure Turn where
  before : Session
  packet : Packet
  reply : Reply

/-- Takes one packet after the other. -/
def Session.converse (s : Session) (t : Statistics) : List Packet → Except Stop (List Turn)
  | [] => .ok []
  | p :: rest =>
      match s.take t p with
      | .error e => .error e
      | .ok r => (r.session.converse r.statistics rest).map (⟨s, p, r⟩ :: ·)

/-- The numbers that were acknowledged. -/
def acknowledged (turns : List Turn) : List Nat :=
  ((turns.flatMap fun turn => turn.reply.packets).filter fun q => q.flag = .ack).map Packet.seq

/-! ## One packet -/

namespace Session

variable {window : Nat} {s s' : Session} {i : Intake} {t : Statistics} {p : Packet} {r : Reply}

/-- Behind a flush, what is missing is `next`, if anything is. -/
theorem Tidy.lowestMissing (h : s.Tidy) (hword : s.buffer.next + s.buffer.size < limit32) :
    s.buffer.lowestMissing = .ok (if s.buffer.HoldsMore then some s.next else none) := by
  obtain ⟨missing, hfound, hgap, -⟩ :=
    ReorderBuffer.lowestMissing_exact (Nat.le_of_eq h.counted.symm) hword
  rw [hfound]
  congr 1
  split
  · rename_i hmore
    obtain ⟨seq, -, hlt, hheld⟩ := hmore
    exact (hgap s.next).mpr ⟨ReorderBuffer.firstFree_next h.flushed, seq, hlt, hheld⟩
  · rename_i hnone
    cases missing with
    | none => rfl
    | some gap =>
        have hfree := (hgap gap).mp rfl
        obtain ⟨seq, hlt, hheld⟩ := hfree.beyond
        exact absurd ⟨seq, ReorderBuffer.mem_range_of_isSome hheld,
          Nat.lt_of_le_of_lt hfree.reached hlt, hheld⟩ hnone

/-- The answer to a packet that was written acknowledges it, and asks for `next` if more is held. -/
theorem Tidy.report_eq (h : s.Tidy) (hword : s.buffer.next + s.buffer.size < limit32) (t : Statistics) :
    ∃ t', s.report t = .ok ⟨s, t', .control .ack (s.next - 1) ::
      if s.buffer.HoldsMore then [.control .srej s.next] else [], false⟩ := by
  unfold report askAgain
  rw [acknowledge_eq h.first, h.lowestMissing hword]
  by_cases hmore : s.buffer.HoldsMore
  · simp only [if_pos hmore]
    exact ⟨_, rfl⟩
  · simp only [if_neg hmore]
    exact ⟨_, rfl⟩

theorem report_session (h : s.report t = .ok r) : r.session = s := by
  unfold report askAgain at h
  split at h
  · cases h
  · split at h
    · cases h
    · cases h
      rfl
    · split at h
      · cases h
      · cases h
        rfl

/-- What is answered to the packet `next` is the report of the session that has written it. -/
theorem report_of_take (h : s.take t p = .ok r) (hdata : p.flag.isData = true) (hseq : p.seq = s.next) :
    r.session.report t = .ok r := by
  have hnow : p.seq = s.buffer.next := hseq
  unfold take takeData at h
  rw [if_pos hdata, if_neg (by omega), if_pos hnow] at h
  unfold takeNext at h
  split at h
  · cases h
  · split at h
    · cases h
    · rename_i buffer sink hflush
      have hreport : report ⟨buffer, sink⟩ t = .ok r := h
      rw [report_session hreport]
      exact hreport

theorem feedback_old (hdata : p.flag.isData = true) (hseq : p.seq < s.next) (s' : Session) :
    s.feedback p s' = [.control .ack (s'.next - 1)] := by
  have hasks : ¬ s.Asks p s' := by
    rintro (⟨-, hlt⟩ | ⟨-, heq, -⟩) <;> omega
  unfold feedback
  rw [if_pos ⟨hdata, Nat.le_of_lt hseq⟩, if_neg hasks, if_neg (by omega)]
  rfl

theorem feedback_next (hdata : p.flag.isData = true) (hseq : p.seq = s.next) (s' : Session) :
    s.feedback p s' = .control .ack (s'.next - 1) ::
      if s'.buffer.HoldsMore then [.control .srej s'.next] else [] := by
  have hend : ¬ (p.flag = .endOfFile ∧ p.seq = s.next) := by
    rintro ⟨heq, -⟩
    rw [heq] at hdata
    cases hdata
  have hasks : s.Asks p s' ↔ s'.buffer.HoldsMore := by
    refine ⟨?_, fun hmore => Or.inr ⟨hdata, hseq, hmore⟩⟩
    rintro (⟨-, hlt⟩ | ⟨-, -, hmore⟩)
    · omega
    · exact hmore
  unfold feedback
  rw [if_pos ⟨hdata, Nat.le_of_eq hseq⟩, if_neg hend, List.append_nil]
  simp only [hasks]
  rfl

theorem feedback_early (hkind : p.flag.isData = true ∨ p.flag = .endOfFile) (hseq : s.next < p.seq)
    (s' : Session) : s.feedback p s' = [.control .srej s'.next] := by
  have hasks : s.Asks p s' := Or.inl ⟨hkind, hseq⟩
  unfold feedback
  rw [if_neg (by omega), if_pos hasks, if_neg (by omega)]
  rfl

theorem feedback_end (hend : p.flag = .endOfFile) (hseq : p.seq = s.next) (s' : Session) :
    s.feedback p s' = [.control .eofAck s.next] := by
  have hdata : ¬ p.flag.isData = true := by
    rw [hend]
    exact Bool.false_ne_true
  have hasks : ¬ s.Asks p s' := by
    rintro (⟨-, hlt⟩ | ⟨hdata', -⟩)
    · omega
    · exact hdata hdata'
  unfold feedback
  rw [if_neg fun hack => hdata hack.1, if_neg hasks, if_pos ⟨hend, hseq⟩]
  rfl

/-- An end that comes again, and whatever is neither data nor the end, is not answered. -/
theorem feedback_pass (hdata : p.flag.isData = false) (hend : p.flag = .endOfFile → p.seq < s.next)
    (s' : Session) : s.feedback p s' = [] := by
  have hnot : ¬ p.flag.isData = true := by
    rw [hdata]
    exact Bool.false_ne_true
  have hasks : ¬ s.Asks p s' := by
    rintro (⟨hdata' | hflag, hlt⟩ | ⟨hdata', -⟩)
    · exact hnot hdata'
    · have hlate := hend hflag
      omega
    · exact hnot hdata'
  have hfinish : ¬ (p.flag = .endOfFile ∧ p.seq = s.next) := by
    rintro ⟨hflag, heq⟩
    have hlate := hend hflag
    omega
  unfold feedback
  rw [if_neg fun hack => hnot hack.1, if_neg hasks, if_neg hfinish]
  rfl

/-- There are three kinds of answers. -/
theorem eq_of_mem_feedback {q : Packet} (hq : q ∈ s.feedback p s') :
    q = .control .ack (s'.next - 1) ∨ q = .control .srej s'.next ∨ q = .control .eofAck s.next := by
  have hmem : ∀ {c : Prop} [Decidable c] {x : Packet}, q ∈ (if c then [x] else []) → q = x := by
    intro c _ x hin
    split at hin
    · exact List.mem_singleton.mp hin
    · cases hin
  unfold feedback at hq
  rcases List.mem_append.mp hq with hq | hq
  · rcases List.mem_append.mp hq with hq | hq
    · exact Or.inl (hmem hq)
    · exact Or.inr (Or.inl (hmem hq))
  · exact Or.inr (Or.inr (hmem hq))

/-- Every packet is answered as it should be. -/
theorem Outcome.feedback (ho : s.Outcome t p r) (htake : s.take t p = .ok r) (hafter : r.session.Tidy)
    (hword : r.session.buffer.next + r.session.buffer.size < limit32) :
    r.packets = s.feedback p r.session := by
  by_cases hnow : p.flag.isData = true ∧ p.seq = s.next
  · obtain ⟨hdata, hseq⟩ := hnow
    obtain ⟨t', hreport⟩ := hafter.report_eq hword t
    have hreply := (report_of_take htake hdata hseq).symm.trans hreport
    rw [feedback_next hdata hseq, Except.ok.inj hreply]
  · cases ho with
    | old hdata hseq => exact (feedback_old hdata hseq s).symm
    | advance run s' hdata hseq => exact absurd ⟨hdata, hseq⟩ hnow
    | advanceAsking run s' hdata hseq => exact absurd ⟨hdata, hseq⟩ hnow
    | hold hdata hlo => exact (feedback_early (Or.inl hdata) hlo (s.hold p.payload p.seq)).symm
    | held hdata hlo => exact (feedback_early (Or.inl hdata) hlo s).symm
    | far hdata hfar =>
        have hpos := s.buffer.size_pos
        exact (feedback_early (Or.inl hdata) (by omega) s).symm
    | finish hend hseq => exact (feedback_end hend hseq s).symm
    | early hend hlo => exact (feedback_early (Or.inr hend) hlo s).symm
    | pass hdata hend => exact (feedback_pass hdata hend s).symm

end Session

/-! ## One packet after the other -/

namespace Intake

/-- Takes down packets of the peer. -/
def takeAll (window : Nat) (i : Intake) (ps : List Packet) : Intake := ps.foldl (take window) i

variable {window : Nat} {i : Intake} {p : Packet} {seq : Nat}

theorem takeAll_append (window : Nat) (i : Intake) (ps rest : List Packet) :
    i.takeAll window (ps ++ rest) = (i.takeAll window ps).takeAll window rest := List.foldl_append

theorem run_le_takeAll (window : Nat) (i : Intake) (ps : List Packet) :
    i.run ≤ (i.takeAll window ps).run := by
  induction ps generalizing i with
  | nil => exact Nat.le_refl _
  | cons p rest ih => exact Nat.le_trans (i.run_le_take window p) (ih _)

theorem find_take (h : (i.find seq).isSome) : ((i.take window p).find seq).isSome := by
  unfold take
  split
  · rename_i hnew
    rw [find_append hnew.2.2.2]
    split
    · rfl
    · exact h
  · exact h

/-- What was accepted stays. -/
theorem find_takeAll (h : (i.find seq).isSome) (ps : List Packet) :
    ((i.takeAll window ps).find seq).isSome := by
  induction ps generalizing i with
  | nil => exact h
  | cons p rest ih => exact ih (find_take h)

/-- A data packet within the window is there afterwards, if it was not before. -/
theorem find_take_near (hdata : p.flag.isData = true) (hlo : i.run < p.seq)
    (hhi : p.seq ≤ i.run + window) : ((i.take window p).find p.seq).isSome := by
  by_cases hnew : i.find p.seq = none
  · unfold take
    rw [if_pos ⟨hdata, hlo, hhi, hnew⟩, find_append hnew, if_pos rfl]
    rfl
  · exact find_take (Option.isSome_iff_ne_none.mpr hnew)

end Intake

namespace Turn

/-- A packet is taken by the session as it is by the intake, and answered as it should be. -/
structure Fair (window : Nat) (i : Intake) (turn : Turn) : Prop where
  before : turn.before.Holds window i
  after : turn.reply.session.Holds window (i.take window turn.packet)
  packets : turn.reply.packets = turn.before.feedback turn.packet turn.reply.session
  word : (i.take window turn.packet).run + 1 + window < limit32

/-- So are all packets, one after the other. -/
def AllFair (window : Nat) : Intake → List Turn → Prop
  | _, [] => True
  | i, turn :: rest => turn.Fair window i ∧ AllFair window (i.take window turn.packet) rest

variable {window : Nat} {i : Intake} {turn : Turn} {turns : List Turn}

theorem AllFair.of_append {later : List Turn} (h : AllFair window i (turns ++ later)) :
    AllFair window i turns := by
  induction turns generalizing i with
  | nil => trivial
  | cons first rest ih => exact ⟨h.1, ih h.2⟩

theorem AllFair.at {earlier later : List Turn} (h : AllFair window i (earlier ++ turn :: later)) :
    turn.Fair window (i.takeAll window (earlier.map packet)) := by
  induction earlier generalizing i with
  | nil => exact h.1
  | cons first rest ih => exact ih h.2

end Turn

namespace Session

variable {window : Nat} {s : Session} {i : Intake} {t : Statistics} {p : Packet}

/-- A packet is taken as long as the number behind the window is one. -/
theorem Holds.turn (h : s.Holds window i) (hword : (i.take window p).run + 1 + window < limit32)
    (t : Statistics) : ∃ r, s.take t p = .ok r ∧ Turn.Fair window i ⟨s, p, r⟩ := by
  rcases take_cases h.tidy t p with ⟨a, -, hrefuses⟩ | ⟨r, htake, ho⟩
  · exact absurd hrefuses (h.not_refuses hword)
  · have hafter := h.outcome ho
    have hpackets := ho.feedback htake hafter.tidy (hafter.roomy hword).word
    exact ⟨r, htake, h, hafter, hpackets, hword⟩

/-- So are all packets. -/
theorem Holds.converse (h : s.Holds window i) (t : Statistics) (ps : List Packet)
    (hword : (i.takeAll window ps).run + 1 + window < limit32) :
    ∃ turns, s.converse t ps = .ok turns ∧ turns.map Turn.packet = ps ∧ Turn.AllFair window i turns := by
  induction ps generalizing s i t with
  | nil => exact ⟨[], rfl, rfl, trivial⟩
  | cons p rest ih =>
      have hgrows := (i.take window p).run_le_takeAll window rest
      have hall : (i.takeAll window (p :: rest)).run = ((i.take window p).takeAll window rest).run := rfl
      obtain ⟨r, htake, hfair⟩ := h.turn (p := p) (by omega) t
      obtain ⟨turns, hturns, hpackets, hothers⟩ := ih hfair.after r.statistics hword
      refine ⟨⟨s, p, r⟩ :: turns, ?_, congrArg (p :: ·) hpackets, hfair, hothers⟩
      simp only [Session.converse, htake, hturns]
      rfl

end Session

/-! ## What the answers say -/

/-- What was received in some turns. -/
def Turn.received (window : Nat) (peer : Address) (turns : List Turn) : Intake :=
  Intake.takeAll window ⟨peer, []⟩ (turns.map Turn.packet)

/-- The answers in a turn are those that they should be, and what they say is so. -/
structure Turn.Truthful (window : Nat) (peer : Address) (earlier : List Turn) (turn : Turn) : Prop where
  empty_before : turn.before.buffer.slots.get turn.before.next = none
  empty_after : turn.reply.session.buffer.slots.get turn.reply.session.next = none
  /-- What is expected next is the first packet that was not received. -/
  expected : turn.reply.session.next = (received window peer (earlier ++ [turn])).run + 1
  packets : turn.reply.packets = turn.before.feedback turn.packet turn.reply.session
  /-- What is acknowledged was received, and is written. -/
  acks : ∀ q ∈ turn.reply.packets, q.flag = .ack → q.seq + 1 = turn.reply.session.next ∧
    (∀ seq, 1 ≤ seq → seq ≤ q.seq → ((received window peer (earlier ++ [turn])).find seq).isSome) ∧
    turn.reply.session.sink.bytes = (received window peer (earlier ++ [turn])).join 1 q.seq
  /-- What is asked for was not received: if it has come, it was refused as too far ahead. -/
  srejs : ∀ q ∈ turn.reply.packets, q.flag = .srej → q.seq = turn.reply.session.next ∧
    (received window peer (earlier ++ [turn])).find q.seq = none ∧
    ∀ other ∈ earlier ++ [turn], other.packet.flag.isData = true → other.packet.seq = q.seq →
      other.before.buffer.next + other.before.buffer.size ≤ q.seq

namespace Turn

variable {window : Nat} {i : Intake} {peer : Address} {turn : Turn} {turns earlier later : List Turn}

theorem received_concat : received window peer (earlier ++ [turn]) =
    (received window peer earlier).take window turn.packet := by
  unfold received
  rw [List.map_append, Intake.takeAll_append]
  rfl

/-- The number of an acknowledgement is how many pieces there are in a row. -/
theorem Fair.seq_ack (h : turn.Fair window i) {q : Packet} (hq : q ∈ turn.reply.packets)
    (hflag : q.flag = .ack) : q.seq = (i.take window turn.packet).run := by
  have hrun := h.after.run_eq
  have hword := h.word
  rw [h.packets] at hq
  rcases Session.eq_of_mem_feedback hq with rfl | rfl | rfl
  · rw [Packet.seq_control _ (by omega)]
    omega
  · cases hflag
  · cases hflag

theorem Fair.seq_srej (h : turn.Fair window i) {q : Packet} (hq : q ∈ turn.reply.packets)
    (hflag : q.flag = .srej) : q.seq = turn.reply.session.next := by
  have hrun := h.after.run_eq
  have hword := h.word
  rw [h.packets] at hq
  rcases Session.eq_of_mem_feedback hq with rfl | rfl | rfl
  · cases hflag
  · exact Packet.seq_control _ (by omega)
  · cases hflag

/-- A data packet that came near enough is among what was received, then and later. -/
theorem AllFair.received_near {other : Turn} (h : AllFair window ⟨peer, []⟩ (earlier ++ other :: later))
    (hdata : other.packet.flag.isData = true) (hlo : (received window peer earlier).run < other.packet.seq)
    (hhi : other.packet.seq < other.before.buffer.next + other.before.buffer.size) :
    ((received window peer (earlier ++ other :: later)).find other.packet.seq).isSome := by
  have hbefore : other.before.Holds window (received window peer earlier) := h.at.before
  have hrun : (received window peer earlier).run + 1 = other.before.buffer.next := hbefore.run_eq
  have hsize := hbefore.size
  unfold received at *
  rw [List.map_append, Intake.takeAll_append]
  exact Intake.find_takeAll (Intake.find_take_near hdata hlo (by omega)) (later.map packet)

theorem AllFair.truthful (h : AllFair window ⟨peer, []⟩ (earlier ++ turn :: later)) :
    turn.Truthful window peer earlier := by
  have hfair : turn.Fair window (received window peer earlier) := h.at
  have hafter := hfair.after
  have hrun := hafter.run_eq
  rw [← received_concat] at hafter hrun
  refine ⟨hfair.before.tidy.slot, hafter.tidy.slot, hrun.symm, hfair.packets, fun q hq hflag => ?_,
    fun q hq hflag => ?_⟩
  · have hseq := hfair.seq_ack hq hflag
    rw [← received_concat] at hseq
    refine ⟨by omega, fun seq hlo hhi => hafter.below seq hlo (by omega), ?_⟩
    rw [hseq]
    exact hafter.file_eq
  · have hseq := hfair.seq_srej hq hflag
    have hnone : (received window peer (earlier ++ [turn])).find q.seq = none := by
      rw [hseq, hafter.above _ (Nat.le_refl _), hafter.tidy.flushed]
    refine ⟨hseq, hnone, fun other hother hdata heq => Nat.le_of_not_lt fun hnear => ?_⟩
    obtain ⟨first, rest, hsplit⟩ := List.append_of_mem hother
    have hupto : AllFair window ⟨peer, []⟩ (earlier ++ [turn]) := AllFair.of_append (by
      rw [List.append_assoc]
      exact h)
    have hlo := (received window peer first).run_le_takeAll window ((other :: rest).map packet)
    rw [hsplit] at hupto hnone hrun
    have hthere := hupto.received_near hdata ?_ (heq ▸ hnear)
    · rw [heq, hnone] at hthere
      cases hthere
    · unfold received at hrun ⊢
      rw [List.map_append, Intake.takeAll_append] at hrun
      unfold received at hlo
      omega

theorem acknowledged_cons (turn : Turn) (rest : List Turn) :
    acknowledged (turn :: rest) = acknowledged [turn] ++ acknowledged rest := by
  simp only [acknowledged, List.flatMap_cons, List.flatMap_nil, List.append_nil, List.filter_append,
    List.map_append]

theorem Fair.acknowledged (h : turn.Fair window i) {number : Nat}
    (hnumber : number ∈ acknowledged [turn]) : number = (i.take window turn.packet).run := by
  obtain ⟨q, hq, rfl⟩ := List.mem_map.mp hnumber
  obtain ⟨hq, hflag⟩ := List.mem_filter.mp hq
  rw [List.flatMap_singleton] at hq
  exact h.seq_ack hq (of_decide_eq_true hflag)

/-- Acknowledgements go up, from what was there before. -/
theorem AllFair.ordered (h : AllFair window i turns) :
    (∀ number ∈ acknowledged turns, i.run ≤ number) ∧ (acknowledged turns).Pairwise (· ≤ ·) := by
  induction turns generalizing i with
  | nil => exact ⟨fun _ hnumber => absurd hnumber List.not_mem_nil, List.Pairwise.nil⟩
  | cons turn rest ih =>
      obtain ⟨hlater, hordered⟩ := ih h.2
      have hgrows := i.run_le_take window turn.packet
      rw [acknowledged_cons]
      refine ⟨fun number hnumber => ?_, List.pairwise_append.mpr ⟨?_, hordered, ?_⟩⟩
      · rcases List.mem_append.mp hnumber with hthis | hnext
        · rw [h.1.acknowledged hthis]
          exact hgrows
        · exact Nat.le_trans hgrows (hlater number hnext)
      · refine List.pairwise_of_forall_mem_list fun m hm n hn => ?_
        exact Nat.le_of_eq ((h.1.acknowledged hm).trans (h.1.acknowledged hn).symm)
      · intro m hm n hn
        rw [h.1.acknowledged hm]
        exact hlater n hn

end Turn

/-- **Whatever packets come, what is acknowledged is written, and what is asked for is missing.** -/
theorem feedback_truthful {window : Nat} (hpos : 1 ≤ window) (hle : window ≤ 229) :
    ∃ buffer, ReorderBuffer.make window = .ok buffer ∧
      ∀ (t : Statistics) (peer : Address) (ps : List Packet),
        (Intake.takeAll window ⟨peer, []⟩ ps).run + 1 + window < limit32 →
        ∃ turns, Session.converse { buffer := buffer } t ps = .ok turns ∧ turns.map Turn.packet = ps ∧
          (∀ earlier turn later, turns = earlier ++ turn :: later → turn.Truthful window peer earlier) ∧
          (acknowledged turns).Pairwise (· ≤ ·) := by
  have hmake := ReorderBuffer.make_eq hpos hle
  refine ⟨_, hmake, fun t peer ps hword => ?_⟩
  obtain ⟨turns, hturns, hpackets, hfair⟩ := (Session.holds_new hmake peer).converse t ps hword
  refine ⟨turns, hturns, hpackets, fun earlier turn later hsplit => ?_, hfair.ordered.2⟩
  rw [hsplit] at hfair
  exact hfair.truthful

/-- The fifth packet comes too early and the third before the second.  The end is announced twice, and an
acknowledgement is not for a receiver. -/
def mixedPackets : List Packet :=
  [⟨5, .data, [0]⟩, ⟨3, .data, [3]⟩, ⟨1, .data, [1]⟩, ⟨5, .endOfFile, []⟩, ⟨2, .srejData, [2]⟩,
    ⟨1, .timeoutData, [7]⟩, ⟨9, .ack, []⟩, ⟨5, .data, [5]⟩, ⟨4, .srejData, [4]⟩, ⟨6, .endOfFile, []⟩]

theorem mixed_truthful : ∃ buffer turns, ReorderBuffer.make 3 = .ok buffer ∧
    Session.converse { buffer := buffer } {} mixedPackets = .ok turns ∧
    (∀ earlier turn later, turns = earlier ++ turn :: later → turn.Truthful 3 ⟨"peer", 0⟩ earlier) ∧
    (acknowledged turns).Pairwise (· ≤ ·) ∧
    turns.map (fun turn => turn.reply.packets) =
      [[.control .srej 1], [.control .srej 1], [.control .ack 1, .control .srej 2], [.control .srej 2],
        [.control .ack 3], [.control .ack 3], [], [.control .srej 4], [.control .ack 5],
        [.control .eofAck 6]] := by
  obtain ⟨buffer, hmake, hall⟩ := @feedback_truthful 3 (by decide) (by decide)
  obtain ⟨turns, hturns, -, htruthful, hordered⟩ := hall {} ⟨"peer", 0⟩ mixedPackets (by decide)
  refine ⟨buffer, turns, hmake, hturns, htruthful, hordered, ?_⟩
  have hreplies := congrArg (Except.map fun turns => turns.map fun turn => turn.reply.packets) hturns
  cases hmake
  exact (Except.ok.inj hreplies).symm

end SelectiveReject
