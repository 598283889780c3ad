import SelectiveReject.Proofs.Incidents
import SelectiveReject.Proofs.Lists
import SelectiveReject.Proofs.Requests
import SelectiveReject.Proofs.Taking

/-!
# What a download makes of its datagrams

The intake of a download is read off the datagrams that it has taken from its queue.  The first packet
that answers the request, or stands for the answer, names the peer.  From then on a data packet of the
peer is accepted when its number is within the window, counted from the first piece that is missing, and
no packet with this number was accepted before.  `run` counts the pieces up to the first that is missing,
and `file` puts them together:

```
run < seq ≤ run + window,  seq is new    seq is accepted
any other packet                         nothing changes
```

Whatever arrives, the file on this side is the file of the intake.
-/

namespace SelectiveReject

open Scenario

/-- The packet answers the request, or stands for the answer. -/
def Packet.Opens (p : Packet) : Prop :=
  p.flag = .fnameOk ∨ p.flag.isData = true ∨ p.flag = .endOfFile

instance (p : Packet) : Decidable p.Opens := inferInstanceAs (Decidable (_ ∨ _))

/-- What a download has accepted, and from whom. -/
structure Intake where
  peer : Address
  /-- The payloads that were accepted, with their numbers. -/
  pieces : List (Nat × Bytes) := []
  deriving DecidableEq, Repr

namespace Intake

/-- The payload that was accepted under a number. -/
def find (i : Intake) (seq : Nat) : Option Bytes := i.pieces.lookup seq

/-- How many pieces there are up to the first that is missing. -/
def run (i : Intake) : Nat :=
  ((List.range' 1 i.pieces.length).takeWhile fun seq => (i.find seq).isSome).length

/-- The pieces from `seq` on, as many as `count`, put together. -/
def join (i : Intake) (seq count : Nat) : Bytes :=
  (List.range' seq count).flatMap fun seq => (i.find seq).getD []

/-- The pieces up to the first that is missing, put together. -/
def file (i : Intake) : Bytes := i.join 1 i.run

/-- Takes down a packet of the peer. -/
def take (window : Nat) (i : Intake) (p : Packet) : Intake :=
  if p.flag.isData = true ∧ i.run < p.seq ∧ p.seq ≤ i.run + window ∧ i.find p.seq = none then
    { i with pieces := i.pieces ++ [(p.seq, p.payload)] }
  else i

/-- Takes down what a download did; there is no intake before there is a peer. -/
def note (window : Nat) (i : Option Intake) : Deed → Option Intake
  | .sent _ => i
  | .read x =>
      match x.packet with
      | .error _ => i
      | .ok p =>
          match i with
          | none => if p.Opens then some (take window ⟨x.source, []⟩ p) else none
          | some i => some (if x.source = i.peer then i.take window p else i)

/-- The intake of a log. -/
def of (window : Nat) (log : List Deed) : Option Intake := log.foldl (note window) none

variable {window : Nat} {log : List Deed} {i : Intake} {x : Arrival} {p : Packet}

theorem of_read : of window (log ++ [.read x]) = note window (of window log) (.read x) := by
  simp [of]

@[simp] theorem of_sent (ps : List Packet) : of window (log ++ ps.map .sent) = of window log := by
  have hquiet : ∀ i : Option Intake, (ps.map Deed.sent).foldl (note window) i = i := by
    intro i
    induction ps with
    | nil => rfl
    | cons p rest ih => exact ih
  simp only [of, List.foldl_append, hquiet]

/-- A damaged datagram changes nothing. -/
theorem note_damaged {i : Option Intake} (hp : ∀ p, x.packet ≠ .ok p) :
    note window i (.read x) = i := by
  cases hx : x.packet with
  | error e => simp only [note, hx]
  | ok p => exact absurd hx (hp p)

theorem note_first (hp : x.packet = .ok p) (hopens : p.Opens) :
    note window none (.read x) = some (take window ⟨x.source, []⟩ p) := by
  simp only [note, hp, if_pos hopens]

theorem note_other (hp : x.packet = .ok p) (hopens : ¬ p.Opens) :
    note window none (.read x) = none := by
  simp only [note, hp, if_neg hopens]

theorem note_peer (hp : x.packet = .ok p) (hsource : x.source = i.peer) :
    note window (some i) (.read x) = some (i.take window p) := by
  simp only [note, hp, if_pos hsource]

theorem note_foreign (hsource : x.source ≠ i.peer) : note window (some i) (.read x) = some i := by
  cases hx : x.packet with
  | error e => simp only [note, hx]
  | ok p => simp only [note, hx, if_neg hsource]

theorem peer_take : (i.take window p).peer = i.peer := by
  unfold take
  split <;> rfl

theorem take_of_not_data (h : p.flag.isData = false) : i.take window p = i := by
  unfold take
  rw [if_neg]
  rintro ⟨hdata, -⟩
  rw [h] at hdata
  cases hdata

/-- One more piece has been accepted. -/
theorem find_append {seq : Nat} {data : Bytes} (hnew : i.find seq = none) (s : Nat) :
    find { i with pieces := i.pieces ++ [(seq, data)] } s = if s = seq then some data else i.find s := by
  unfold find at *
  exact lookup_append_new hnew data s

/-- Numbers up to the first that is missing. -/
theorem length_takeWhile_range' (f : Nat → Bool) : ∀ (n k a : Nat), k ≤ n →
    (∀ s, a ≤ s → s < a + k → f s = true) → f (a + k) = false →
    ((List.range' a n).takeWhile f).length = k := by
  intro n
  induction n with
  | zero =>
      intro k a hk _ _
      simp [Nat.le_zero.mp hk]
  | succ n ih =>
      intro k a hk hall hstop
      rw [List.range'_succ, List.takeWhile_cons]
      cases k with
      | zero =>
          rw [Nat.add_zero] at hstop
          rw [hstop]
          rfl
      | succ k =>
          rw [hall a (Nat.le_refl _) (by omega), if_pos rfl, List.length_cons,
            ih k (a + 1) (by omega) (fun s h1 h2 => hall s (by omega) (by omega))
              (by rw [show a + 1 + k = a + (k + 1) by omega]; exact hstop)]

theorem join_append (seq m n : Nat) : i.join seq m ++ i.join (seq + m) n = i.join seq (m + n) := by
  unfold join
  rw [← List.flatMap_append, List.range'_append_1]

theorem join_congr {i' : Intake} {seq count : Nat}
    (h : ∀ s, seq ≤ s → s < seq + count → i.find s = i'.find s) :
    i.join seq count = i'.join seq count := by
  unfold join
  rw [List.flatMap_def, List.flatMap_def]
  congr 1
  refine List.map_congr_left fun s hs => ?_
  obtain ⟨hlo, hhi⟩ := List.mem_range'_1.mp hs
  rw [h s hlo hhi]

/-- A list of pieces that are there, put together. -/
theorem flatten_eq_join {seq : Nat} {run : List Bytes}
    (h : ∀ k, k < run.length → i.find (seq + k) = run[k]?) : run.flatten = i.join seq run.length := by
  have hrun : run = (List.range' seq run.length).map fun s => (i.find s).getD [] := by
    apply List.ext_getElem (by simp)
    intro k hk _
    have := h k hk
    rw [List.getElem?_eq_getElem hk] at this
    simp [this]
  unfold join
  rw [List.flatMap_def, ← hrun]

end Intake

namespace Session

/-- A session holds and has written what its intake says. -/
structure Holds (window : Nat) (s : Session) (i : Intake) : Prop where
  tidy : s.Tidy
  size : s.buffer.size = window
  below : ∀ seq, 1 ≤ seq → seq < s.next → (i.find seq).isSome = true
  above : ∀ seq, s.next ≤ seq → i.find seq = s.buffer.holding seq
  count : i.pieces.length + 1 = s.next + s.buffer.held
  bytes : s.sink.bytes = i.join 1 (s.next - 1)

variable {window : Nat} {s s' : Session} {i : Intake} {t : Statistics} {p : Packet} {r : Reply}
  {run : List Bytes}

/-- The piece to be written next is the first that is missing. -/
theorem Holds.run_eq (h : s.Holds window i) : i.run + 1 = s.next := by
  have hfirst := h.tidy.first
  have hcount := h.count
  have hrun : i.run = s.next - 1 := by
    refine Intake.length_takeWhile_range' _ _ _ _ (by omega)
      (fun seq hlo hhi => h.below seq hlo (by omega)) ?_
    rw [show 1 + (s.next - 1) = s.next by omega, h.above _ (Nat.le_refl _), h.tidy.flushed]
    rfl
  omega

theorem Holds.file_eq (h : s.Holds window i) : s.sink.bytes = i.file := by
  rw [h.bytes, Intake.file, show s.next - 1 = i.run by have := h.run_eq; omega]

theorem holds_new {buffer : ReorderBuffer} (hmake : ReorderBuffer.make window = .ok buffer)
    (peer : Address) : Holds window { buffer := buffer } ⟨peer, []⟩ := by
  unfold ReorderBuffer.make SlotRing.forWindow at hmake
  split at hmake
  · rename_i hsize
    cases hmake
    exact {
      tidy := tidy_new hsize.1
      size := SlotRing.size_filled _ hsize.1 _
      below := fun seq hlo hhi => by
        have : seq < 1 := hhi
        omega
      above := fun seq _ => (ReorderBuffer.holding_new hsize.1 seq).symm
      count := by
        exact congrArg (1 + ·) (ReorderBuffer.held_new window hsize.1).symm
      bytes := rfl }
  · cases hmake

/-- A packet that is new and near enough is accepted. -/
theorem Holds.take_new (h : s.Holds window i) (hdata : p.flag.isData = true) (hlo : s.next ≤ p.seq)
    (hhi : p.seq < s.next + s.buffer.size) (hfree : s.buffer.holding p.seq = none) :
    i.take window p = { i with pieces := i.pieces ++ [(p.seq, p.payload)] } := by
  have hrun := h.run_eq
  have hsize := h.size
  unfold Intake.take
  exact if_pos ⟨hdata, by omega, by omega, (h.above _ hlo).trans hfree⟩

/-- What is held with one more packet is what the intake has then. -/
theorem Holds.find_take (h : s.Holds window i) (hdata : p.flag.isData = true) (hlo : s.next ≤ p.seq)
    (hhi : p.seq < s.next + s.buffer.size) (hfree : s.buffer.holding p.seq = none) (seq : Nat) :
    (i.take window p).find seq = if seq < s.next then i.find seq
      else (s.buffer.store p.payload p.seq).holding seq := by
  have hlo' : s.buffer.next ≤ p.seq := hlo
  rw [h.take_new hdata hlo hhi hfree, Intake.find_append ((h.above _ hlo).trans hfree)]
  by_cases hold : seq < s.next
  · rw [if_pos hold, if_neg (by omega)]
  · rw [if_neg hold, ReorderBuffer.holding_store hlo' hhi, h.above seq (by omega)]

theorem Holds.hold (h : s.Holds window i) (hdata : p.flag.isData = true) (hlo : s.next < p.seq)
    (hhi : p.seq < s.next + s.buffer.size) (hfree : s.buffer.holding p.seq = none) :
    (s.hold p.payload p.seq).Holds window (i.take window p) := by
  have hfind := h.find_take hdata (Nat.le_of_lt hlo) hhi hfree
  have hnext : (s.hold p.payload p.seq).next = s.next := rfl
  have hslot : s.buffer.slots.get p.seq = none := by
    rw [← ReorderBuffer.holding_of_range (Nat.le_of_lt hlo) hhi]
    exact hfree
  constructor
  · exact h.tidy.hold p.payload hlo hhi hfree
  · exact (ReorderBuffer.size_store _ _).trans h.size
  · intro seq h1 h2
    rw [hfind, if_pos (hnext ▸ h2)]
    exact h.below seq h1 h2
  · intro seq h1
    rw [hfind, if_neg (by omega)]
    rfl
  · have hcount := h.count
    rw [h.take_new hdata (Nat.le_of_lt hlo) hhi hfree, List.length_append, List.length_singleton, hnext]
    show i.pieces.length + 1 + 1 = s.next + (s.buffer.store p.payload p.seq).held
    rw [ReorderBuffer.held_store hslot]
    omega
  · show s.sink.bytes = _
    rw [h.bytes, hnext]
    refine Intake.join_congr fun seq _ hlt => ?_
    rw [hfind, if_pos (by omega)]

theorem Holds.advanced (h : s.Holds window i) (hdata : p.flag.isData = true) (hseq : p.seq = s.next)
    (ha : s.Advanced p.payload run s') : s'.Holds window (i.take window p) := by
  have hpos := s.buffer.size_pos
  have hfirst := h.tidy.first
  have hflushed : s.buffer.holding p.seq = none := hseq ▸ h.tidy.flushed
  have hfind := h.find_take hdata (Nat.le_of_eq hseq.symm) (by omega) hflushed
  have hnext : s'.next = s.next + run.length := ha.wrote.next
  have hwrote : (s.buffer.store p.payload p.seq).Wrote run s'.buffer := hseq.symm ▸ ha.wrote
  constructor
  · exact h.tidy.advanced ha
  · exact (hwrote.size.trans (ReorderBuffer.size_store _ _)).trans h.size
  · intro seq h1 h2
    rw [hfind]
    split
    · rename_i hold
      exact h.below seq h1 hold
    · obtain ⟨k, rfl⟩ : ∃ k, seq = s.next + k := ⟨seq - s.next, by omega⟩
      have hk : k < run.length := by omega
      have htaken : (s.buffer.store p.payload p.seq).holding (s.next + k) = run[k]? :=
        hwrote.taken k hk
      rw [htaken, List.getElem?_eq_getElem hk]
      rfl
  · intro seq h1
    rw [hfind, if_neg (by omega), hwrote.rest seq h1]
  · have hcount := h.count
    have hheld := hwrote.held
    rw [ReorderBuffer.held_store (hseq ▸ h.tidy.slot)] at hheld
    rw [h.take_new hdata (Nat.le_of_eq hseq.symm) (by omega) hflushed, List.length_append,
      List.length_singleton]
    omega
  · have hold : i.join 1 (s.next - 1) = (i.take window p).join 1 (s.next - 1) := by
      refine Intake.join_congr fun seq _ hlt => ?_
      rw [hfind, if_pos (by omega)]
    have hrun : run.flatten = (i.take window p).join (1 + (s.next - 1)) run.length := by
      refine Intake.flatten_eq_join fun k hk => ?_
      rw [hfind, if_neg (by omega), show 1 + (s.next - 1) + k = s.next + k by omega]
      exact hwrote.taken k hk
    rw [ha.bytes, h.bytes, hold, hrun, Intake.join_append]
    rw [show s.next - 1 + run.length = s'.next - 1 by omega]

/-- What a session makes of a packet is what its intake does. -/
theorem Holds.outcome (h : s.Holds window i) (ho : s.Outcome t p r) :
    r.session.Holds window (i.take window p) := by
  have hrun := h.run_eq
  have hsize := h.size
  have hsame : ¬ (p.flag.isData = true ∧ i.run < p.seq ∧ p.seq ≤ i.run + window ∧
      i.find p.seq = none) → s.Holds window (i.take window p) := by
    intro hnot
    unfold Intake.take
    rw [if_neg hnot]
    exact h
  have hquiet : p.flag.isData = false → s.Holds window (i.take window p) := fun hdata => by
    rw [Intake.take_of_not_data hdata]
    exact h
  cases ho with
  | old hdata hseq => exact hsame fun ⟨_, hlo, _⟩ => by omega
  | advance run s' hdata hseq hmoved => exact h.advanced hdata hseq hmoved
  | advanceAsking run s' hdata hseq hmoved hmore => exact h.advanced hdata hseq hmoved
  | hold hdata hlo hhi hfree => exact h.hold hdata hlo hhi hfree
  | held hdata hlo hheld =>
      refine hsame fun ⟨_, _, _, hnew⟩ => ?_
      rw [h.above _ (Nat.le_of_lt hlo)] at hnew
      rw [hnew] at hheld
      cases hheld
  | far hdata hfar => exact hsame fun ⟨_, _, hhi, _⟩ => by omega
  | finish hend hseq => exact hquiet (by rw [hend]; rfl)
  | early hend hseq => exact hquiet (by rw [hend]; rfl)
  | pass hdata hend => exact hquiet hdata

end Session

/-- The datagrams that were taken from the queue. -/
def reads (log : List Deed) : List Arrival :=
  log.filterMap fun
    | .read x => some x
    | .sent _ => none

@[simp] theorem reads_sent (log : List Deed) (ps : List Packet) :
    reads (log ++ ps.map .sent) = reads log := by
  have hnone : reads (ps.map .sent) = [] := by
    induction ps with
    | nil => rfl
    | cons p rest ih => exact ih
  unfold reads at *
  rw [List.filterMap_append, hnone, List.append_nil]

theorem reads_read (log : List Deed) (x : Arrival) : reads (log ++ [.read x]) = reads log ++ [x] := by
  simp [reads]

/-- The datagram that was read last holds this packet of the peer. -/
def LastRead (peer : Address) (p : Packet) (log : List Deed) : Prop :=
  ∃ x, (reads log).getLast? = some x ∧ x.source = peer ∧ x.packet = .ok p

theorem lastRead_read {peer : Address} {p : Packet} {x : Arrival} (log : List Deed)
    (hsource : x.source = peer) (hp : x.packet = .ok p) : LastRead peer p (log ++ [.read x]) := by
  refine ⟨x, ?_, hsource, hp⟩
  rw [reads_read, List.getLast?_concat]

theorem LastRead.sent {peer : Address} {p : Packet} {log : List Deed} (h : LastRead peer p log)
    (ps : List Packet) : LastRead peer p (log ++ ps.map .sent) := by
  unfold LastRead
  rw [reads_sent]
  exact h

/-- What a download is doing agrees with what its log says. -/
def Stage.Accounts (window : Nat) (peer : Address) (log : List Deed) : Stage → Prop
  | .asking | .asked | .handshake => Intake.of window log = none
  | .answered none => Intake.of window log = some ⟨peer, []⟩
  | .answered (some p) =>
      Intake.of window log = some (Intake.take window ⟨peer, []⟩ p) ∧ LastRead peer p log
  | .receiving s | .silent s =>
      ∃ i, Intake.of window log = some i ∧ i.peer = peer ∧ s.Holds window i
  | .complete s =>
      ∃ i, Intake.of window log = some i ∧ i.peer = peer ∧ s.Holds window i ∧
        ∃ p, LastRead peer p log ∧ p.flag = .endOfFile ∧ p.seq = s.next

/-- A download has taken what its log says, and has acknowledged no more than it has written. -/
structure Download.Accounts (window : Nat) (d : Download) (log : List Deed) : Prop where
  window_eq : d.request.parameters.window.toNat = window
  stage : d.stage.Accounts window d.peer log
  acks : ∀ p, .sent p ∈ log → p.flag = .ack → ∃ s, d.session = some s ∧ p.seq < s.next

namespace Download

variable {window : Nat} {d d' : Download} {log : List Deed} {queue queue' : List Arrival}
  {sent : List Packet} {s : Session} {i : Intake} {p : Packet} {r : Reply}

/-- What a session holds and has written is what the log says. -/
theorem Accounts.of_session (h : d.Accounts window log) (hs : d.session = some s) :
    ∃ i, Intake.of window log = some i ∧ i.peer = d.peer ∧ s.Holds window i := by
  have hstage := h.stage
  unfold Download.session at hs
  cases hd : d.stage with
  | asking | asked | handshake =>
      rw [hd] at hs
      cases hs
  | answered first =>
      rw [hd] at hs
      cases hs
  | receiving s' | silent s' =>
      rw [hd] at hs hstage
      cases hs
      exact hstage
  | complete s' =>
      rw [hd] at hs hstage
      cases hs
      obtain ⟨i, hof, hpeer, hholds, -⟩ := hstage
      exact ⟨i, hof, hpeer, hholds⟩

theorem Accounts.tidy (h : d.Accounts window log) (s : Session) (hs : d.session = some s) :
    s.Tidy := by
  obtain ⟨i, -, -, hholds⟩ := h.of_session hs
  exact hholds.tidy

theorem file_of_session (hs : d.session = some s) : d.file = some s.sink.bytes := by
  unfold Download.session at hs
  unfold file
  cases hd : d.stage with
  | receiving s' | silent s' | complete s' =>
      rw [hd] at hs
      cases hs
      rfl
  | asking | asked | handshake | answered =>
      rw [hd] at hs
      cases hs

/-- What a download acknowledges it has written. -/
theorem acks_outcome {t : Statistics} (htidy : s.Tidy) (ho : s.Outcome t p r) :
    ∀ q ∈ r.packets, q.flag = .ack → q.seq < r.session.next := by
  have hack : ∀ {n}, 1 ≤ n → (Packet.control .ack (n - 1)).seq < n := by
    intro n hn
    have : (Packet.control .ack (n - 1)).seq ≤ n - 1 := by
      unfold Packet.control Packet.seq
      rw [UInt32.toNat_ofNat']
      exact Nat.mod_le _ _
    omega
  have hfirst := (ho.tidy htidy).1.first
  intro q hq hflag
  cases ho with
  | old | advance =>
      rw [List.mem_singleton] at hq
      subst hq
      exact hack hfirst
  | advanceAsking =>
      rcases List.mem_cons.mp hq with rfl | hq
      · exact hack hfirst
      · rw [List.mem_singleton] at hq
        subst hq
        cases hflag
  | hold | held | far | finish | early =>
      rw [List.mem_singleton] at hq
      subst hq
      cases hflag
  | pass => cases hq

/-- A packet that was read last is taken. -/
theorem Accounts.after {t : Statistics} (hwindow : d.request.parameters.window.toNat = window)
    (hof : Intake.of window log = some (i.take window p)) (hpeer : i.peer = d.peer)
    (hread : LastRead d.peer p log) (hholds : s.Holds window i)
    (hacks : ∀ q, .sent q ∈ log → q.flag = .ack → q.seq < s.next) (ho : s.Outcome t p r) :
    (d.after r).Accounts window (log ++ r.packets.map .sent) where
  window_eq := hwindow
  stage := by
    have hnext := hholds.outcome ho
    have hof' : Intake.of window (log ++ r.packets.map .sent) = some (i.take window p) := by
      rw [Intake.of_sent, hof]
    have hpeer' : (i.take window p).peer = d.peer := Intake.peer_take.trans hpeer
    show Stage.Accounts window d.peer _ (if r.complete then .complete r.session else .receiving r.session)
    cases ho with
    | finish hend hseq => exact ⟨_, hof', hpeer', hnext, p, hread.sent _, hend, hseq⟩
    | old | advance | advanceAsking | hold | held | far | early | pass => exact ⟨_, hof', hpeer', hnext⟩
  acks q hq hflag := by
    refine ⟨r.session, session_after d r, ?_⟩
    rcases List.mem_append.mp hq with hq | hq
    · exact Nat.lt_of_lt_of_le (hacks q hq hflag) (ho.tidy hholds.tidy).2
    · obtain ⟨q', hq', heq⟩ := List.mem_map.mp hq
      cases heq
      exact acks_outcome hholds.tidy ho q hq' hflag

/-- The datagram is taken down before the session takes its packet. -/
theorem Accounts.taken {x : Arrival} {t : Statistics} (h : d.Accounts window log)
    (hstage : d.stage = .receiving s) (hsource : x.source = d.peer) (hp : x.packet = .ok p)
    (ho : s.Outcome t p r) : (d.after r).Accounts window (log ++ deeds (x :: queue) queue r.packets) := by
  have hsession : d.session = some s := by rw [session, hstage]
  obtain ⟨i, hof, hpeer, hholds⟩ := h.of_session hsession
  rw [deeds_read, List.append_cons]
  refine Accounts.after h.window_eq ?_ hpeer (lastRead_read log hsource hp) hholds ?_ ho
  · rw [Intake.of_read, hof, Intake.note_peer hp (hsource.trans hpeer.symm)]
  · intro q hq hflag
    obtain ⟨s', hs', hlt⟩ := h.acks q (by simpa using hq) hflag
    rw [hsession] at hs'
    cases hs'
    exact hlt

/-- As long as there is no session, nothing has been acknowledged. -/
theorem Accounts.quiet (h : d.Accounts window log) (hsession : d.session = none) :
    ∀ p, .sent p ∈ log → p.flag ≠ .ack := by
  intro p hp hflag
  obtain ⟨s, hs, -⟩ := h.acks p hp hflag
  rw [hsession] at hs
  cases hs

theorem Accounts.of_quiet (hwindow : d.request.parameters.window.toNat = window)
    (hstage : d.stage.Accounts window d.peer log) (hquiet : ∀ p, .sent p ∈ log → p.flag ≠ .ack) :
    d.Accounts window log :=
  ⟨hwindow, hstage, fun p hp hflag => absurd hflag (hquiet p hp)⟩

theorem sent_of_mem_read {x : Arrival} (h : .sent p ∈ log ++ [.read x]) : .sent p ∈ log := by
  simpa using h

theorem Idle.not_opens (h : Idle p) : ¬ p.Opens := by
  obtain ⟨hok, -, hdata, hend⟩ := h
  rintro (hopens | hopens | hopens)
  · exact hok hopens
  · rw [hdata] at hopens
    cases hopens
  · exact hend hopens

/-- Each step of a download is taken down. -/
theorem Accounts.step (h : d.Accounts window log) (hstep : Machine.step d queue = .next d' queue' sent) :
    d'.Accounts window (log ++ deeds queue queue' sent) := by
  have hmoves := step_moves h.tidy queue
  rw [show d.step queue = .next d' queue' sent from hstep] at hmoves
  have hstage := h.stage
  have hsame : ∀ queue, log ++ deeds queue queue [] = log := by simp
  have hread : ∀ x queue, log ++ deeds (x :: queue) queue [] = log ++ [.read x] := by simp
  cases hmoves with
  | ask _ hd =>
      have hquiet := h.quiet (by rw [session, hd])
      rw [hd] at hstage
      rw [deeds_same]
      refine Accounts.of_quiet h.window_eq ?_ fun p hp => ?_
      · show Intake.of window (log ++ _) = none
        rw [Intake.of_sent]
        exact hstage
      · rcases List.mem_append.mp hp with hp | hp
        · exact hquiet p hp
        · simp only [List.map_cons, List.map_nil, List.mem_singleton, Deed.sent.injEq] at hp
          rw [hp]
          intro hflag
          cases hflag
  | beginWait _ hd hpatient =>
      have hquiet := h.quiet (by rw [session, hd])
      rw [hd] at hstage
      rw [hsame]
      exact Accounts.of_quiet h.window_eq hstage hquiet
  | ignoreAnswer x _ t hd hother =>
      have hquiet := h.quiet (by rw [session, hd])
      rw [hd] at hstage
      rw [hread]
      refine Accounts.of_quiet h.window_eq ?_ fun p hp => hquiet p (sent_of_mem_read hp)
      show Intake.of window (log ++ [.read x]) = none
      rw [Intake.of_read, show Intake.of window log = none from hstage]
      cases hp : x.packet with
      | error e => exact Intake.note_damaged (by simp [hp])
      | ok p =>
          exact Intake.note_other hp (hother p hp).not_opens
  | granted x _ p hd hp hflag =>
      have hquiet := h.quiet (by rw [session, hd])
      rw [hd] at hstage
      rw [hread]
      refine Accounts.of_quiet h.window_eq ?_ fun q hq => hquiet q (sent_of_mem_read hq)
      show Intake.of window (log ++ [.read x]) = some ⟨x.source, []⟩
      rw [Intake.of_read, show Intake.of window log = none from hstage,
        Intake.note_first hp (Or.inl hflag), Intake.take_of_not_data (by rw [hflag]; rfl)]
  | standIn x _ p hd hp hflag =>
      have hquiet := h.quiet (by rw [session, hd])
      rw [hd] at hstage
      rw [hread]
      refine Accounts.of_quiet h.window_eq ⟨?_, lastRead_read log rfl hp⟩ fun q hq =>
        hquiet q (sent_of_mem_read hq)
      rw [Intake.of_read, show Intake.of window log = none from hstage,
        Intake.note_first hp (Or.inr hflag)]
  | opened _ buffer hd hmake =>
      have hquiet := h.quiet (by rw [session, hd])
      rw [hd] at hstage
      rw [h.window_eq] at hmake
      rw [hsame]
      exact Accounts.of_quiet h.window_eq ⟨_, hstage, rfl, Session.holds_new hmake _⟩ hquiet
  | openedWith _ buffer p r hd hmake htakes =>
      have hquiet := h.quiet (by rw [session, hd])
      rw [hd] at hstage
      rw [h.window_eq] at hmake
      rw [deeds_same]
      exact Accounts.after h.window_eq hstage.1 rfl hstage.2 (Session.holds_new hmake d.peer)
        (fun q hq hflag => absurd hflag (hquiet q hq)) htakes
  | ignore x _ t s hd hother =>
      rw [hread]
      rw [hd] at hstage
      obtain ⟨i, hof, hpeer, hholds⟩ := hstage
      refine ⟨h.window_eq, ?_, fun p hp hflag => h.acks p (sent_of_mem_read hp) hflag⟩
      show Stage.Accounts window d.peer _ d.stage
      rw [hd]
      refine ⟨i, ?_, hpeer, hholds⟩
      rw [Intake.of_read, hof]
      rcases hother with hsource | hdamaged
      · exact Intake.note_foreign fun heq => hsource (heq.trans hpeer)
      · exact Intake.note_damaged hdamaged
  | take x _ p s r hd hsource hp htakes => exact h.taken hd hsource hp htakes

/-- A wait that is over changes nothing that was taken. -/
theorem Accounts.expire (h : d.Accounts window log) : (Download.expire d).Accounts window log := by
  have hstage := h.stage
  have hacks := h.acks
  unfold session at hacks
  cases hd : d.stage with
  | asking | asked | answered | silent | complete =>
      unfold Download.expire
      rw [hd]
      exact h
  | handshake =>
      rw [hd] at hstage hacks
      unfold Download.expire
      rw [hd]
      exact ⟨h.window_eq, hstage, hacks⟩
  | receiving s =>
      rw [hd] at hstage hacks
      unfold Download.expire
      rw [hd]
      exact ⟨h.window_eq, hstage, hacks⟩

/-- A buffer that cannot be made is too small or too large. -/
theorem make_error {size : Nat} {e : Error} (h : ReorderBuffer.make size = .error e) :
    e = .invalidWindow size := by
  unfold ReorderBuffer.make SlotRing.forWindow at h
  split at h <;> cases h
  rfl

/-- A download that ends well was told so, and one that ends because nothing has come was receiving. -/
theorem Accounts.ends {result : Except Stop Statistics} (h : d.Accounts window log)
    (hstep : Machine.step d queue = .stop result) :
    (∀ t, result = .ok t → ∃ s, d.stage = .complete s) ∧
      ∀ n, result = .error (.error (.receiveTimeout n)) → ∃ s, d.stage = .silent s := by
  have hmoves := step_moves h.tidy queue
  rw [show d.step queue = .stop result from hstep] at hmoves
  cases hmoves with
  | finish _ s hd => exact ⟨fun _ _ => ⟨s, hd⟩, nofun⟩
  | silent _ s hd => exact ⟨nofun, fun _ _ => ⟨s, hd⟩⟩
  | refused | uncreatable | openedBroken | broken => exact ⟨nofun, nofun⟩
  | unbuffered _ first e hd hmake =>
      rw [make_error hmake]
      exact ⟨nofun, nofun⟩
  | giveUp _ e hd hpatient he =>
      rcases he with ⟨a, rfl⟩ | ⟨tries, rfl⟩ <;> exact ⟨nofun, nofun⟩

theorem accounts_start {config : Config} {fetch : Fetch} {server : Except Error Address}
    (h : start config fetch server = .ok d) :
    d.Accounts fetch.parameters.window.toNat [] := by
  unfold start at h
  split at h
  · cases h
  · split at h
    · cases h
    · rename_i request hmake
      obtain ⟨rfl, -⟩ := FileRequest.make_eq_ok hmake
      cases server with
      | error e => cases h
      | ok address =>
          cases h
          exact ⟨rfl, rfl, nofun⟩

end Download

namespace Scenario.Encounter

/-- What a download has made of the datagrams that it was given. -/
structure Received (window : Nat) (e : Encounter Download) : Prop where
  /-- No piece is acknowledged before all up to it are there. -/
  acks : ∀ p, .sent p ∈ e.log → p.flag = .ack → ∃ i, Intake.of window e.log = some i ∧ p.seq ≤ i.run
  /-- A download that ends well, or because nothing has come for too long, leaves the file of its
  intake. -/
  file : ∀ result, e.station.result = some result →
    ((∃ t, result = .ok t) ∨ ∃ n, result = .error (.error (.receiveTimeout n))) →
    ∃ i, Intake.of window e.log = some i ∧ e.station.machine.file = some i.file ∧
      e.station.machine.next = i.run + 1
  /-- It ends well only when the last datagram that it read announces the end behind the last piece. -/
  confirmed : ∀ t, e.station.result = some (.ok t) →
    ∃ i p, Intake.of window e.log = some i ∧ LastRead i.peer p e.log ∧ p.flag = .endOfFile ∧
      p.seq = i.run + 1

/-- **Whatever arrives, the file of a download is that of its intake.** -/
theorem download_received {config : Config} {fetch : Fetch} {server : Except Error Address}
    {d : Download} (hstart : Download.start config fetch server = .ok d) {link : Link}
    {faults : FaultModel} {e : Encounter Download} (h : Reaches link (start d faults) e) :
    e.Received fetch.parameters.window.toNat := by
  obtain ⟨haccounts, hover⟩ := upholds (Download.Accounts fetch.parameters.window.toNat)
    (Download.accounts_start hstart) (fun _ _ h => h.expire) (fun _ _ _ _ _ _ h hstep => h.step hstep) h
  -- a result of one of the two kinds is that of the last step
  have hcomplete : ∀ t, e.station.result = some (.ok t) → ∃ s, e.station.machine.stage = .complete s := by
    intro t ht
    rcases hover _ ht with ⟨queue, last, hstop, hlast⟩ | ⟨stop, hstop, -⟩
    · cases last with
      | ok t => exact (haccounts.ends hstop).1 t rfl
      | error stop => cases hlast
    · cases hstop
  have hsilent : ∀ n, e.station.result = some (.error (.error (.receiveTimeout n))) →
      ∃ s, e.station.machine.stage = .silent s := by
    intro n hn
    rcases hover _ hn with ⟨queue, last, hstop, hlast⟩ | ⟨stop, hstop, hunsent⟩
    · cases last with
      | ok t => cases hlast
      | error stop =>
          cases hlast
          exact (haccounts.ends hstop).2 n rfl
    · cases hstop
      cases hunsent
  refine ⟨fun p hp hflag => ?_, fun result hresult hkind => ?_, fun t ht => ?_⟩
  · obtain ⟨s, hs, hlt⟩ := haccounts.acks p hp hflag
    obtain ⟨i, hof, -, hholds⟩ := haccounts.of_session hs
    have hrun := hholds.run_eq
    exact ⟨i, hof, by omega⟩
  · obtain ⟨s, hs⟩ : ∃ s, e.station.machine.session = some s := by
      rcases hkind with ⟨t, rfl⟩ | ⟨n, rfl⟩
      · obtain ⟨s, hs⟩ := hcomplete t hresult
        exact ⟨s, by rw [Download.session, hs]⟩
      · obtain ⟨s, hs⟩ := hsilent n hresult
        exact ⟨s, by rw [Download.session, hs]⟩
    obtain ⟨i, hof, -, hholds⟩ := haccounts.of_session hs
    refine ⟨i, hof, ?_, ?_⟩
    · rw [Download.file_of_session hs, hholds.file_eq]
    · rw [Download.next_of_session hs, hholds.run_eq]
  · obtain ⟨s, hs⟩ := hcomplete t ht
    have hstage := haccounts.stage
    rw [hs] at hstage
    obtain ⟨i, hof, hpeer, hholds, p, hread, hflag, hseq⟩ := hstage
    exact ⟨i, p, hof, hpeer ▸ hread, hflag, hseq.trans hholds.run_eq.symm⟩

/-- A client that asks for a letter and takes two packets ahead. -/
def letterFetch : Fetch := { name := "letter", parameters := ⟨2, 400⟩ }

/-- The second piece comes first and stands for the answer.  A stranger sends a first piece, and the second
comes again with other bytes; then the first comes, and again with other bytes; then the end. -/
def letterArrivals : List Incident :=
  let mail (source : String) (p : Packet) : List Incident :=
    [.arrival ⟨⟨source, 0⟩, p.frame⟩, .step]
  [.step, .step] ++ mail "transfer" ⟨2, .data, [30, 40]⟩ ++ [.step] ++
    mail "stranger" ⟨1, .data, [50]⟩ ++ mail "transfer" ⟨2, .data, [60]⟩ ++
    mail "transfer" ⟨1, .srejData, [10, 20]⟩ ++ mail "transfer" ⟨1, .timeoutData, [70]⟩ ++
    mail "transfer" (.control .endOfFile 3) ++ [.step]

/-- The first copy of each piece counts. -/
theorem letter_received : ∃ (d : Download) (e : Encounter Download),
    Download.start {} letterFetch (.ok ⟨"server", 0⟩) = .ok d ∧
    e.station.machine.file = some [10, 20, 30, 40] ∧ (∃ t, e.station.result = some (.ok t)) ∧
    e.Received letterFetch.parameters.window.toNat := by
  obtain ⟨d, hstart⟩ : ∃ d, Download.start {} letterFetch (.ok ⟨"server", 0⟩) = .ok d := ⟨_, rfl⟩
  have hends : ((start d (.ofConfig {})).run .up letterArrivals).any
      (fun e => decide (e.station.machine.file = some [10, 20, 30, 40]) &&
        e.station.result.any (·.isOk)) = true := by
    cases hstart
    decide +kernel
  obtain ⟨e, hrun, hgood⟩ := (Option.any_eq_true _ _).mp hends
  rw [Bool.and_eq_true] at hgood
  obtain ⟨result, hresult, hok⟩ := (Option.any_eq_true _ _).mp hgood.2
  have hreceived := download_received hstart (reaches_of_run .refl hrun)
  cases result with
  | error stop => cases hok
  | ok t => exact ⟨d, e, hstart, of_decide_eq_true hgood.1, ⟨t, hresult⟩, hreceived⟩

end Scenario.Encounter

end SelectiveReject
