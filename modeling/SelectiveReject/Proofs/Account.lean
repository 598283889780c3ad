import SelectiveReject.Proofs.Incidents
import SelectiveReject.Proofs.Sending

/-!
# Every packet of an upload is accounted for

A ledger is kept of the log of an upload: whether the client was told that the file is there, how many
pieces were sent, and the highest piece that the client has acknowledged.  Whatever arrives, each packet
that the upload sends is one that the ledger so far allows:

```
fnameOk       0                            before anything else
data          pieces + 1                   up to acked + window, with the bytes of that piece
srejData      acked < seq ≤ pieces         with the bytes of that piece
timeoutData   acked < seq ≤ pieces         with the bytes of that piece
endOfFile     last + 1                     when pieces = last
```
-/

namespace SelectiveReject

/-- The file that is sent on a request that was read from a payload. -/
def Consignment.ofPayload {payload : Bytes} {request : FileRequest}
    (h : FileRequest.ofPayload payload = .ok request) (file : Bytes)
    (hcount : pieceCount file request.parameters.buffer.toNat ≤ limit32 - 2) : Consignment where
  request := request
  file := file
  valid := FileRequest.check_of_ofPayload h
  countable := hcount

open Scenario

/-- What the log of an upload adds up to. -/
structure Ledger where
  /-- The client has been told that the file is there. -/
  greeted : Bool := false
  /-- How many pieces were sent, not counting those sent again. -/
  pieces : Nat := 0
  /-- The highest piece that the client has acknowledged, of those that were sent. -/
  acked : Nat := 0
  deriving DecidableEq, Repr

namespace Ledger

/-- Takes down what an upload did. -/
def note (client : Address) (l : Ledger) : Deed → Ledger
  | .sent p =>
      if p.flag = .fnameOk then { l with greeted := true }
      else if p.flag = .data then { l with pieces := l.pieces + 1 }
      else l
  | .read x =>
      match x.packet with
      | .error _ => l
      | .ok p =>
          if x.source = client ∧ p.flag = .ack ∧ p.seq ≤ l.pieces then
            { l with acked := max l.acked p.seq }
          else l

/-- The ledger of a log. -/
def of (client : Address) (log : List Deed) : Ledger := log.foldl (note client) {}

/-- The packets that an upload may send next. -/
inductive Allows (j : Consignment) (l : Ledger) (p : Packet) : Prop
  | greeting (hflag : p.flag = .fnameOk) (hseq : p.seq = 0) (hfirst : l.greeted = false)
  | piece (hflag : p.flag = .data) (hgreeted : l.greeted = true) (hseq : p.seq = l.pieces + 1)
      (hlast : p.seq ≤ j.last) (hroom : p.seq ≤ l.acked + j.window)
      (hpayload : p.payload = j.piece p.seq)
  | again (hflag : p.flag = .srejData ∨ p.flag = .timeoutData) (hgreeted : l.greeted = true)
      (hsent : p.seq ≤ l.pieces) (hwaits : l.acked < p.seq) (hpayload : p.payload = j.piece p.seq)
  | farewell (hflag : p.flag = .endOfFile) (hgreeted : l.greeted = true)
      (hseq : p.seq = j.last + 1) (hall : l.pieces = j.last)

/-- Each packet in the log was allowed when it was sent. -/
def Lawful (j : Consignment) (client : Address) (log : List Deed) : Prop :=
  ∀ before p after, log = before ++ .sent p :: after → (of client before).Allows j p

/-- The client has confirmed the end of the file, after it was announced. -/
def Confirmed (j : Consignment) (client : Address) (log : List Deed) : Prop :=
  ∃ before x p after, log = before ++ .read x :: after ∧
    .sent (.control .endOfFile (j.last + 1)) ∈ before ∧
    x.source = client ∧ x.packet = .ok p ∧ p.flag = .eofAck ∧ p.seq = j.last + 1

variable {j : Consignment} {client : Address} {log : List Deed} {l : Ledger} {p : Packet} {x : Arrival}

theorem of_concat (d : Deed) : of client (log ++ [d]) = note client (of client log) d := by
  simp [of]

theorem lawful_nil : Lawful j client [] := by
  intro before p after h
  simp at h

theorem Lawful.read (h : Lawful j client log) : Lawful j client (log ++ [.read x]) := by
  intro before p after hlog
  rcases List.eq_nil_or_concat after with rfl | ⟨after, d, rfl⟩
  · obtain ⟨-, hlast⟩ := List.append_inj' hlog rfl
    cases hlast
  · rw [List.concat_eq_append, ← List.cons_append, ← List.append_assoc] at hlog
    exact h before p after (List.append_inj' hlog rfl).1

theorem Lawful.sent (h : Lawful j client log) (hallows : (of client log).Allows j p) :
    Lawful j client (log ++ [.sent p]) := by
  intro before q after hlog
  rcases List.eq_nil_or_concat after with rfl | ⟨after, d, rfl⟩
  · obtain ⟨hbefore, hlast⟩ := List.append_inj' hlog rfl
    cases hlast
    exact hbefore ▸ hallows
  · rw [List.concat_eq_append, ← List.cons_append, ← List.append_assoc] at hlog
    exact h before q after (List.append_inj' hlog rfl).1

/-- A datagram that acknowledges nothing new changes nothing. -/
theorem note_read (h : x.source ≠ client ∨ ∀ p, x.packet = .ok p → p.flag = .ack →
    l.pieces < p.seq ∨ p.seq ≤ l.acked) : note client l (.read x) = l := by
  cases hp : x.packet with
  | error e => simp only [note, hp]
  | ok p =>
      simp only [note, hp]
      split
      · rename_i hnoted
        rcases h with h | h
        · exact absurd hnoted.1 h
        · rw [Nat.max_eq_left]
          have := h p hp hnoted.2.1
          omega
      · rfl

theorem note_read_of_ne (hp : x.packet = .ok p) (hflag : p.flag ≠ .ack) :
    note client l (.read x) = l := by
  refine note_read (Or.inr fun q hq hack => ?_)
  rw [hp] at hq
  cases hq
  exact absurd hack hflag

/-- An acknowledgement of a piece that waits is the highest so far. -/
theorem note_ack (hsource : x.source = client) (hp : x.packet = .ok p) (hflag : p.flag = .ack)
    (hsent : p.seq ≤ l.pieces) (hnew : l.acked ≤ p.seq) :
    note client l (.read x) = { l with acked := p.seq } := by
  simp only [note, hp]
  rw [if_pos ⟨hsource, hflag, hsent⟩, Nat.max_eq_right hnew]

end Ledger

/-- An upload whose file is open has done what its log says. -/
structure Serving.Accounts (j : Consignment) (client : Address) (s : Serving) (activity : Activity)
    (log : List Deed) : Prop where
  fits : s.Fits j
  doing : s.Doing activity
  client_eq : s.client = client
  ledger : Ledger.of client log = ⟨true, s.window.current - 1, s.window.lower - 1⟩
  lawful : Ledger.Lawful j client log
  announced : s.Ended → .sent (.control .endOfFile (j.last + 1)) ∈ log
  confirmed : activity = .done → Ledger.Confirmed j client log

/-- An upload has done what its log says. -/
def Upload.Accounts (j : Consignment) (client : Address) (u : Upload) (log : List Deed) : Prop :=
  match u with
  | .opening _ request peer source =>
      request = j.request ∧ peer = client ∧ source = .contents j.file ∧ log = []
  | .refused _ _ => False
  | .serving s activity => Serving.Accounts j client s activity log

section
variable {j : Consignment} {client : Address} {log : List Deed} {s s' : Serving}
  {activity activity' : Activity} {queue queue' : List Arrival}

/-- What the ledger of an upload reads. -/
def Serving.ledger (s : Serving) : Ledger := ⟨true, s.window.current - 1, s.window.lower - 1⟩

@[simp] theorem Serving.ledger_pieces (s : Serving) : s.ledger.pieces = s.window.current - 1 := rfl

@[simp] theorem Serving.ledger_acked (s : Serving) : s.ledger.acked = s.window.lower - 1 := rfl

/-- A packet that waits for its acknowledgement may be sent again. -/
theorem Serving.Fits.allows_again (h : s.Fits j) {seq : Nat} (hseq : s.window.Holds seq) {flag : Flag}
    (hflag : flag = .srejData ∨ flag = .timeoutData) :
    s.ledger.Allows j ⟨UInt32.ofNat seq, flag, j.piece seq⟩ := by
  obtain ⟨hlo, hhi⟩ := hseq
  have hfirst := h.window.first
  have hreached := h.reached
  have hlast := j.last_succ_lt
  have hnumber : (⟨UInt32.ofNat seq, flag, j.piece seq⟩ : Packet).seq = seq :=
    Packet.seq_control flag (by omega)
  refine .again hflag rfl ?_ ?_ (by rw [hnumber])
  · rw [hnumber, Serving.ledger_pieces]
    omega
  · rw [hnumber, Serving.ledger_acked]
    omega

theorem Serving.Fits.allows_end (h : s.window.current = j.last + 1) :
    s.ledger.Allows j (.control .endOfFile (j.last + 1)) :=
  .farewell rfl rfl (Packet.seq_control _ j.last_succ_lt) (by
    rw [Serving.ledger_pieces, h, Nat.add_sub_cancel])

theorem Serving.Fits.allows_piece (h : s.Fits j) (hopen : s.Open) (hmore : s.window.current ≤ j.last) :
    s.ledger.Allows j ⟨UInt32.ofNat s.window.current, .data, j.piece s.window.current⟩ := by
  have hfirst := h.window.first
  have hordered := h.window.ordered
  have hlast := j.last_succ_lt
  have hsize := h.size
  have hnumber : (⟨UInt32.ofNat s.window.current, .data, j.piece s.window.current⟩ : Packet).seq =
      s.window.current := Packet.seq_control .data (by omega)
  unfold Serving.Open at hopen
  refine .piece rfl rfl ?_ (by rw [hnumber]; exact hmore) ?_ (by rw [hnumber])
  · rw [hnumber, Serving.ledger_pieces]
    omega
  · rw [hnumber, Serving.ledger_acked]
    omega

/-- A datagram that tells the upload nothing leaves the ledger as it is. -/
theorem Serving.Fits.note_pass (h : s.Fits j) {x : Arrival}
    (hother : x.source ≠ s.client ∨ ∀ p, x.packet = .ok p → ¬ s.Tells p) :
    Ledger.note s.client s.ledger (.read x) = s.ledger := by
  have hfirst := h.window.first
  refine Ledger.note_read (hother.imp_right fun hnot p hp hack => ?_)
  have hfree : ¬ s.window.Holds p.seq := fun hseq => hnot p hp (Or.inl ⟨hack, hseq⟩)
  unfold SendWindow.Holds at hfree
  rw [Serving.ledger_pieces, Serving.ledger_acked]
  omega

/-- A packet that was allowed is entered in the ledger. -/
theorem Serving.Accounts.sent (h : Serving.Accounts j client s activity log) {p : Packet}
    (hfits : s'.Fits j) (hdoing : s'.Doing activity') (hclient : s'.client = s.client)
    (hallows : s.ledger.Allows j p) (hledger : Ledger.note client s.ledger (.sent p) = s'.ledger)
    (hended : s'.Ended → s.Ended ∨ p = .control .endOfFile (j.last + 1)) (hdone : activity' ≠ .done) :
    Serving.Accounts j client s' activity' (log ++ [.sent p]) where
  fits := hfits
  doing := hdoing
  client_eq := hclient.trans h.client_eq
  ledger := by
    rw [Ledger.of_concat, h.ledger]
    exact hledger
  lawful := h.lawful.sent (by
    rw [h.ledger]
    exact hallows)
  announced hnow := by
    rcases hended hnow with hbefore | rfl
    · exact List.mem_append_left _ (h.announced hbefore)
    · exact List.mem_append_right _ (List.mem_singleton_self _)
  confirmed hnow := absurd hnow hdone

/-- A datagram that was read is entered in the ledger. -/
theorem Serving.Accounts.read (h : Serving.Accounts j client s activity log) {x : Arrival}
    (hfits : s'.Fits j) (hdoing : s'.Doing activity') (hclient : s'.client = s.client)
    (hledger : Ledger.note client s.ledger (.read x) = s'.ledger) (hended : s'.Ended → s.Ended)
    (hconfirmed : activity' = .done → Ledger.Confirmed j client (log ++ [.read x])) :
    Serving.Accounts j client s' activity' (log ++ [.read x]) where
  fits := hfits
  doing := hdoing
  client_eq := hclient.trans h.client_eq
  ledger := by
    rw [Ledger.of_concat, h.ledger]
    exact hledger
  lawful := h.lawful.read
  announced hnow := List.mem_append_left _ (h.announced (hended hnow))
  confirmed := hconfirmed

/-- Each step is entered in the ledger. -/
theorem Serving.Accounts.goes {sent : List Packet} (h : Serving.Accounts j client s activity log)
    (hg : Serving.Goes j s activity queue (.next (.serving s' activity') queue' sent)) :
    Serving.Accounts j client s' activity' (log ++ deeds queue queue' sent) := by
  have hfits := h.fits
  obtain rfl := h.client_eq
  obtain ⟨hfits', hdoing', hgrows⟩ := hg.fits hfits h.doing
  have hsame : ∀ queue, log ++ deeds queue queue [] = log := by simp
  have hread : ∀ x queue, log ++ deeds (x :: queue) queue [] = log ++ [.read x] := by simp
  have hsent : ∀ queue p, log ++ deeds queue queue [p] = log ++ [.sent p] := by simp
  cases hg with
  | closed | goOn | rest | wake =>
      rw [hsame]
      exact ⟨hfits', hdoing', hgrows.client, h.ledger, h.lawful, h.announced, nofun⟩
  | piece _ hopen hmore =>
      rw [hsent]
      refine h.sent hfits' hdoing' hgrows.client (hfits.allows_piece hopen hmore) ?_ Or.inl nofun
      have hfirst := hfits.one_le_current
      show (⟨true, s.window.current - 1 + 1, s.window.lower - 1⟩ : Ledger) =
        ⟨true, s.window.current + 1 - 1, s.window.lower - 1⟩
      congr 1
      omega
  | announce _ hopen hend =>
      rw [hsent]
      exact h.sent hfits' hdoing' hgrows.client (Serving.Fits.allows_end hend) rfl
        (fun _ => Or.inr rfl) nofun
  | announceAgain _ hall =>
      obtain ⟨number, hnumber⟩ := Option.ne_none_iff_exists'.mp h.doing
      rw [hsent]
      exact h.sent hfits' hdoing' hgrows.client
        (Serving.Fits.allows_end (hfits.ended number hnumber).2) rfl (fun _ => Or.inr rfl) nofun
  | again goal _ hheld =>
      rw [hsent]
      exact h.sent hfits' hdoing' hgrows.client
        (hfits.allows_again ⟨Nat.le_refl _, hheld⟩ (Or.inr rfl)) rfl Or.inl nofun
  | pass goal x _ t hstat hother =>
      rw [hread]
      exact h.read hfits' hdoing' hgrows.client (hfits.note_pass hother) id nofun
  | acked goal x _ p hsource hp hflag hseq =>
      rw [hread]
      refine h.read hfits' hdoing' hgrows.client ?_ id nofun
      have hfirst := hfits.window.first
      obtain ⟨hlo, hhi⟩ := hseq
      rw [Ledger.note_ack hsource hp hflag (by rw [Serving.ledger_pieces]; omega)
        (by rw [Serving.ledger_acked]; omega)]
      show _ = (⟨true, s.window.current - 1, p.seq + 1 - 1⟩ : Ledger)
      rw [Nat.add_sub_cancel]
      rfl
  | asked goal x _ p hsource hp hflag hseq =>
      have hquiet : Ledger.note s.client s.ledger (.read x) = s.ledger :=
        Ledger.note_read_of_ne hp (by simp [hflag])
      have hheard : Serving.Accounts j s.client s (.listening goal) (log ++ [.read x]) :=
        h.read hfits h.doing rfl hquiet id nofun
      rw [deeds_read, List.map_singleton, List.append_cons]
      exact hheard.sent hfits' hdoing' hgrows.client (hfits.allows_again hseq (Or.inl rfl)) rfl
        Or.inl nofun
  | confirmed goal x _ p hsource hp hflag hseq =>
      have hend : s.Ended := by
        rw [Serving.Ended, hseq]
        exact Option.some_ne_none _
      rw [hread]
      exact h.read hfits' hdoing' hgrows.client (Ledger.note_read_of_ne hp (by simp [hflag])) id
        fun _ => ⟨log, x, p, [], rfl, h.announced hend, hsource, hp, hflag, (hfits.ended _ hseq).1⟩

end

/-- A wait that is over changes nothing that was done. -/
theorem Upload.Accounts.expire {j : Consignment} {client : Address} {u : Upload} {log : List Deed}
    (h : u.Accounts j client log) : u.expire.Accounts j client log := by
  match u with
  | .opening .. => exact h
  | .refused .. => exact h
  | .serving s .sending => exact h
  | .serving s (.listening _) => exact h
  | .serving s (.overdue _) => exact h
  | .serving s .done => exact h
  | .serving s (.waiting goal) =>
      exact ⟨h.fits, h.doing.overdue, h.client_eq, h.ledger, h.lawful, h.announced, nofun⟩

/-- Each step of an upload is entered in the ledger. -/
theorem Upload.Accounts.step {j : Consignment} {client : Address} {u u' : Upload} {log : List Deed}
    {queue queue' : List Arrival} {sent : List Packet} (h : u.Accounts j client log)
    (hstep : Machine.step u queue = .next u' queue' sent) :
    u'.Accounts j client (log ++ deeds queue queue' sent) := by
  match u with
  | .refused .. => exact h.elim
  | .serving s activity =>
      have hgoes := Serving.step_spec h.fits h.doing queue
      rw [show s.step queue activity = .next u' queue' sent from hstep] at hgoes
      match u' with
      | .opening .. | .refused .. => cases hgoes
      | .serving s' activity' => exact h.goes hgoes
  | .opening config _ _ _ =>
      obtain ⟨rfl, rfl, rfl, rfl⟩ := h
      rw [Upload.step_opening] at hstep
      cases hstep
      rw [deeds_same]
      refine ⟨Serving.fits_opened config j _, by simp [Serving.Doing, Serving.Ended, Serving.opened], rfl, rfl,
        Ledger.lawful_nil.sent (.greeting rfl (Packet.seq_control _ (by decide)) rfl), nofun, nofun⟩

/-- An upload that ends well had its end confirmed. -/
theorem Upload.Accounts.confirmed {j : Consignment} {client : Address} {u : Upload} {log : List Deed}
    {queue : List Arrival} {t : Statistics} (h : u.Accounts j client log)
    (hstep : Machine.step u queue = .stop (.ok t)) : Ledger.Confirmed j client log := by
  match u with
  | .refused .. => exact h.elim
  | .serving s activity =>
      have hgoes := Serving.step_spec h.fits h.doing queue
      rw [show s.step queue activity = .stop (.ok t) from hstep] at hgoes
      cases hgoes
      exact Serving.Accounts.confirmed h rfl
  | .opening config _ _ _ =>
      obtain ⟨rfl, rfl, rfl, rfl⟩ := h
      rw [Upload.step_opening] at hstep
      cases hstep

theorem Upload.Accounts.lawful {j : Consignment} {client : Address} {u : Upload} {log : List Deed}
    (h : u.Accounts j client log) : Ledger.Lawful j client log := by
  match u with
  | .refused .. => exact h.elim
  | .serving .. => exact Serving.Accounts.lawful h
  | .opening .. =>
      obtain ⟨rfl, rfl, rfl, rfl⟩ := h
      exact Ledger.lawful_nil

namespace Scenario.Encounter

/-- **Whatever arrives, an upload sends what its ledger allows, and ends well only when the client has
confirmed the end.** -/
theorem upload_accounted {payload : Bytes} {request : FileRequest}
    (hrequest : FileRequest.ofPayload payload = .ok request) {file : Bytes}
    (hcount : pieceCount file request.parameters.buffer.toNat ≤ limit32 - 2) {config : Config}
    {client : Address} {link : Link} {faults : FaultModel} {e : Encounter Upload}
    (h : Reaches link (start (.start config request client (.contents file)) faults) e) :
    Ledger.Lawful (.ofPayload hrequest file hcount) client e.log ∧
      ∀ r, e.station.result = some (.ok r) →
        Ledger.Confirmed (.ofPayload hrequest file hcount) client e.log := by
  obtain ⟨haccounts, hover⟩ := upholds
    (fun u log => u.Accounts (.ofPayload hrequest file hcount) client log)
    ⟨rfl, rfl, rfl, rfl⟩ (fun _ _ h => h.expire) (fun _ _ _ _ _ _ h hstep => h.step hstep) h
  refine ⟨haccounts.lawful, fun r hr => ?_⟩
  rcases hover _ hr with ⟨queue, last, hstop, hlast⟩ | ⟨stop, hstop, -⟩
  · cases last with
    | ok t => exact haccounts.confirmed hstop
    | error e => cases hlast
  · cases hstop

/-- A file of 900 bytes is sent in three pieces, two at a time. -/
def letterRequest : FileRequest := ⟨⟨2, 400⟩, "letter"⟩

/-- The client asks for the first piece again, then it is silent; an acknowledgement comes from a stranger,
and one is of a piece that was not sent; so is a confirmation of the end. -/
def letterIncidents : List Incident :=
  let mail (source : String) (flag : Flag) (number : Nat) : Incident :=
    .arrival ⟨⟨source, 0⟩, (Packet.control flag number).frame⟩
  let steps (count : Nat) : List Incident := List.replicate count .step
  steps 6 ++ [mail "client" .srej 1] ++ steps 1 ++ [mail "stranger" .ack 2] ++ steps 2 ++ [.timer] ++
    steps 2 ++ [mail "client" .ack 7, mail "client" .ack 2] ++ steps 8 ++
    [mail "client" .eofAck 3, mail "client" .eofAck 4] ++ steps 4

/-- What was sent, in order. -/
def sentNumbers (log : List Deed) : List (Flag × Nat) :=
  log.filterMap fun
    | .sent p => some (p.flag, p.seq)
    | .read _ => none

/-- A run with all kinds of packets, in which the client confirms the end. -/
theorem letter_accounted : ∃ (e : Encounter Upload)
    (hrequest : FileRequest.ofPayload letterRequest.toPayload = .ok letterRequest)
    (hcount : pieceCount (List.replicate 900 65) letterRequest.parameters.buffer.toNat ≤ limit32 - 2),
    sentNumbers e.log = [(.fnameOk, 0), (.data, 1), (.data, 2), (.srejData, 1), (.timeoutData, 1),
      (.data, 3), (.endOfFile, 4)] ∧
    Ledger.Lawful (.ofPayload hrequest _ hcount) ⟨"client", 0⟩ e.log ∧
    Ledger.Confirmed (.ofPayload hrequest _ hcount) ⟨"client", 0⟩ e.log := by
  have hrequest : FileRequest.ofPayload letterRequest.toPayload = .ok letterRequest :=
    FileRequest.ofPayload_toPayload rfl
  have hcount : pieceCount (List.replicate 900 65) letterRequest.parameters.buffer.toNat ≤
      limit32 - 2 := by decide +kernel
  have hends : ((start (Upload.start {} letterRequest ⟨"client", 0⟩
      (.contents (List.replicate 900 65))) (.ofConfig {})).run .up letterIncidents).any
      (fun e => decide (sentNumbers e.log = [(.fnameOk, 0), (.data, 1), (.data, 2), (.srejData, 1),
        (.timeoutData, 1), (.data, 3), (.endOfFile, 4)]) && e.station.result.any (·.isOk)) = true := by
    decide +kernel
  obtain ⟨e, hrun, hgood⟩ := (Option.any_eq_true _ _).mp hends
  rw [Bool.and_eq_true] at hgood
  obtain ⟨result, hresult, hok⟩ := (Option.any_eq_true _ _).mp hgood.2
  have haccounted := upload_accounted hrequest hcount (reaches_of_run .refl hrun)
  cases result with
  | error stop => cases hok
  | ok r =>
      exact ⟨e, hrequest, hcount, of_decide_eq_true hgood.1, haccounted.1, haccounted.2 r hresult⟩

end Scenario.Encounter

end SelectiveReject
