import SelectiveReject.Proofs.Lists
import SelectiveReject.Proofs.Safety

/-!
# Steps without faults

When the link is up and no faults are added, what a machine sends is under way as it is.  With a single
transfer, each event then has one effect, which this file says; and what is `pending` for a machine, in its
queue or on the wire, changes only when the machine reads or its peer sends.

A property is `Inevitable` when every run comes to it, whichever steps it takes.
-/

namespace SelectiveReject

/-! ## What every run comes to -/

/-- Every run from here comes to a state with the property, after finitely many steps and without getting
stuck before. -/
inductive Inevitable {α : Type} (step : α → α → Prop) (goal : α → Prop) : α → Prop
  | now {x : α} (h : goal x) : Inevitable step goal x
  | later {x : α} (hstep : ∃ y, step x y) (h : ∀ y, step x y → Inevitable step goal y) :
      Inevitable step goal x

namespace Inevitable

variable {α β : Type} {step : α → α → Prop} {goal : α → Prop} {x : α}

/-- If every state of an invariant either has the property or can go on, and each step comes to the property
or goes down in a well-founded order, then the property is inevitable. -/
theorem of_decreasing [order : WellFoundedRelation β] (inv : β → α → Prop)
    (h : ∀ m x, inv m x → goal x ∨
      (∃ y, step x y) ∧ ∀ y, step x y → goal y ∨ ∃ m', order.rel m' m ∧ inv m' y) :
    ∀ m x, inv m x → Inevitable step goal x := by
  intro m
  induction m using order.wf.induction with
  | h m ih =>
      intro x hx
      rcases h m x hx with hgoal | ⟨hstep, hnext⟩
      · exact .now hgoal
      · refine .later hstep fun y hy => ?_
        rcases hnext y hy with hgoal | ⟨m', hlt, hinv⟩
        · exact .now hgoal
        · exact ih m' hlt y hinv

theorem mono {goal' : α → Prop} (h : Inevitable step goal x) (hgoal : ∀ x, goal x → goal' x) :
    Inevitable step goal' x := by
  induction h with
  | now h => exact .now (hgoal _ h)
  | later hstep _ ih => exact .later hstep ih

end Inevitable

/-- The order of four numbers in which the first that differs decides. -/
def Nearer (m m' : Nat × Nat × Nat × Nat) : Prop := WellFoundedRelation.rel m m'

theorem nearer_of_numbers {p q u w p' q' u' w' : Nat}
    (h : p < p' ∨ p = p' ∧ (q < q' ∨ q = q' ∧ (u < u' ∨ u = u' ∧ w < w'))) :
    Nearer (p, q, u, w) (p', q', u', w') := by
  rcases h with h | ⟨rfl, h | ⟨rfl, h | ⟨rfl, h⟩⟩⟩
  · exact Prod.Lex.left _ _ h
  · exact Prod.Lex.right _ (Prod.Lex.left _ _ h)
  · exact Prod.Lex.right _ (Prod.Lex.right _ (Prod.Lex.left _ _ h))
  · exact Prod.Lex.right _ (Prod.Lex.right _ (Prod.Lex.right _ h))

/-! ## Datagrams that are pending -/

theorem mem_iff_of_eraseIdx {α : Type} {l : List α} {i : Nat} {x : α} (h : l[i]? = some x)
    (y : α) : y ∈ l ↔ y = x ∨ y ∈ l.eraseIdx i := by
  induction l generalizing i with
  | nil => simp at h
  | cons z l ih =>
      cases i with
      | zero =>
          rw [List.getElem?_cons_zero, Option.some.injEq] at h
          subst h
          simp
      | succ i =>
          rw [List.getElem?_cons_succ] at h
          rw [List.eraseIdx_cons_succ, List.mem_cons, List.mem_cons, ih h]
          constructor
          · rintro (h1 | h1 | h1) <;> simp [h1]
          · rintro (h1 | h1 | h1) <;> simp [h1]

/-- A packet as it arrives when nothing has happened to it. -/
theorem Arrival.packet_frame {source : Address} {p : Packet}
    (h : p.payload.length ≤ Packet.maxPayload) : packet ⟨source, p.frame⟩ = .ok p := by
  rw [packet_eq, Packet.decode_frame h]
  rw [Packet.length_frame]
  exact Nat.add_le_add_left h _

namespace Scenario

/-- A packet on its way, as it was sent. -/
def mail (source target : Address) (p : Packet) : Delivery := ⟨source, ⟨target, p.frame⟩⟩

/-- The datagrams in a queue, and behind them those that are under way to it. -/
def pending (queue : List Arrival) (wire : List Delivery) (target : Address) : List Arrival :=
  queue ++ (wire.filter fun d => d.departure.target = target).map Delivery.arrival

section
variable {queue : List Arrival} {wire : List Delivery} {source target target' : Address}

theorem pending_cons (x : Arrival) :
    pending (x :: queue) wire target = x :: pending queue wire target := rfl

/-- What is sent elsewhere is not pending here. -/
theorem pending_mail_of_ne (h : target' ≠ target) (sent : List Packet) :
    pending queue (wire ++ sent.map (mail source target')) target = pending queue wire target := by
  have hnone : (sent.map (mail source target')).filter
      (fun d => d.departure.target = target) = [] := by
    rw [List.filter_eq_nil_iff]
    intro d hd
    obtain ⟨p, -, rfl⟩ := List.mem_map.mp hd
    intro htarget
    exact h (of_decide_eq_true htarget)
  unfold pending
  rw [List.filter_append, hnone, List.append_nil]

/-- What is sent here is pending behind everything else. -/
theorem pending_mail (sent : List Packet) :
    pending queue (wire ++ sent.map (mail source target)) target =
      pending queue wire target ++ sent.map fun p => ⟨source, p.frame⟩ := by
  have hall : (sent.map (mail source target)).filter
      (fun d => d.departure.target = target) = sent.map (mail source target) := by
    rw [List.filter_eq_self]
    intro d hd
    obtain ⟨p, -, rfl⟩ := List.mem_map.mp hd
    simp [mail]
  unfold pending
  rw [List.filter_append, hall, List.map_append, List.map_map, List.append_assoc]
  rfl

theorem mem_pending {x : Arrival} : x ∈ pending queue wire target ↔
    x ∈ queue ∨ ∃ d ∈ wire, d.departure.target = target ∧ d.arrival = x := by
  unfold pending
  rw [List.mem_append, List.mem_map]
  simp only [List.mem_filter, decide_eq_true_eq, and_assoc]

variable {d : Delivery} {index : Nat}

/-- A datagram that arrives here was pending before, and still is. -/
theorem mem_pending_arrived (hd : wire[index]? = some d) (h : d.departure.target = target)
    (x : Arrival) : x ∈ pending (queue ++ [d.arrival]) (wire.eraseIdx index) target ↔
      x ∈ pending queue wire target := by
  rw [mem_pending, mem_pending, List.mem_append, List.mem_singleton]
  constructor
  · rintro ((hx | rfl) | ⟨d', hd', htarget, rfl⟩)
    · exact Or.inl hx
    · exact Or.inr ⟨d, List.mem_of_getElem? hd, h, rfl⟩
    · exact Or.inr ⟨d', (mem_iff_of_eraseIdx hd d').mpr (Or.inr hd'), htarget, rfl⟩
  · rintro (hx | ⟨d', hd', htarget, rfl⟩)
    · exact Or.inl (Or.inl hx)
    · rcases (mem_iff_of_eraseIdx hd d').mp hd' with rfl | hd'
      · exact Or.inl (Or.inr rfl)
      · exact Or.inr ⟨d', hd', htarget, rfl⟩

/-- A datagram that overtakes nothing leaves what is pending here as it was. -/
theorem pending_arrived (hd : wire[index]? = some d) (h : d.departure.target = target)
    (hfirst : ∀ i < index, ∀ d', wire[i]? = some d' → d'.departure.target ≠ target) :
    pending (queue ++ [d.arrival]) (wire.eraseIdx index) target = pending queue wire target := by
  have hwire : (wire.filter fun d => d.departure.target = target) =
      d :: (wire.eraseIdx index).filter fun d => d.departure.target = target := by
    induction wire generalizing index with
    | nil => simp at hd
    | cons x rest ih =>
        cases index with
        | zero =>
            rw [List.getElem?_cons_zero, Option.some.injEq] at hd
            subst hd
            rw [List.filter_cons_of_pos (by simpa using h)]
            rfl
        | succ index =>
            have hx : ¬ x.departure.target = target := hfirst 0 (Nat.succ_pos index) x rfl
            rw [List.getElem?_cons_succ] at hd
            rw [List.eraseIdx_cons_succ, List.filter_cons_of_neg (by simpa using hx),
              List.filter_cons_of_neg (by simpa using hx)]
            exact ih hd fun i hi d' hd' => hfirst (i + 1) (Nat.succ_lt_succ hi) d'
              (by rwa [List.getElem?_cons_succ])
  unfold pending
  rw [hwire, List.map_cons, List.append_assoc]
  rfl

/-- A datagram that arrives elsewhere leaves what is pending here as it was. -/
theorem pending_elsewhere (hd : wire[index]? = some d) (h : d.departure.target ≠ target) :
    pending queue (wire.eraseIdx index) target = pending queue wire target := by
  have hwire : ((wire.eraseIdx index).filter fun d => d.departure.target = target) =
      wire.filter fun d => d.departure.target = target := by
    induction wire generalizing index with
    | nil => simp at hd
    | cons x rest ih =>
        cases index with
        | zero =>
            rw [List.getElem?_cons_zero, Option.some.injEq] at hd
            subst hd
            rw [List.filter_cons_of_neg (by simpa using h)]
            rfl
        | succ index =>
            rw [List.getElem?_cons_succ] at hd
            rw [List.eraseIdx_cons_succ, List.filter_cons, List.filter_cons, ih hd]
  unfold pending
  rw [hwire]

end

/-! ## Effects of the events -/

namespace Station

/-- The station after a step of its machine, when nothing goes wrong in sending. -/
def after {σ : Type} [Machine σ] (s : Station σ) (machine : σ) (queue : List Arrival) : Station σ :=
  ⟨machine, { s.channel with peer := Machine.peer machine }, queue, s.deadline, none⟩

variable {σ : Type} [Machine σ] {s s' : Station σ} {faults faults' : FaultModel}
  {left : List Departure}

/-- Without faults a station that moves ends as its machine does, or sends what its machine does. -/
theorem advance_idle (hidle : faults.Idle)
    (hshort : ∀ machine queue sent, Machine.step s.machine s.queue = .next machine queue sent →
      ∀ p ∈ sent, p.payload.length ≤ Packet.maxPayload)
    (h : s.advance .up faults = some (s', faults', left)) :
    s.ended = false ∧ faults' = faults ∧
      ((∃ result, Machine.step s.machine s.queue = .stop result ∧ s' = s.finish result ∧
        left = []) ∨
      ∃ machine queue sent, Machine.step s.machine s.queue = .next machine queue sent ∧
        s' = s.after machine queue ∧
        left = sent.map fun p => ⟨Machine.peer machine, p.frame⟩) := by
  unfold advance at h
  split at h
  · cases h
  · rename_i hended
    split at h
    · cases h
    · rename_i result hstep
      cases h
      exact ⟨by simpa using hended, rfl, Or.inl ⟨result, hstep, rfl, rfl⟩⟩
    · rename_i machine queue sent hstep
      rw [Channel.sendAll_idle hidle (hshort machine queue sent hstep)] at h
      cases h
      exact ⟨by simpa using hended, rfl, Or.inr ⟨machine, queue, sent, hstep, rfl, rfl⟩⟩

/-- A station that has not ended cannot move only while its machine waits. -/
theorem step_of_advance_eq_none {link : Link} (h : s.advance link faults = none)
    (hended : s.ended = false) : Machine.step s.machine s.queue = .wait := by
  unfold advance at h
  rw [hended] at h
  simp only [Bool.false_eq_true, if_false] at h
  split at h
  · assumption
  · cases h
  · split at h <;> cases h

end Station

namespace Network

variable {a : Addresses} {j : Job} {n n' : Network} {t : Transfer}

/-- The network after packets were sent that nothing happened to. -/
def mailed (n : Network) (source target : Address) (sent : List Packet) : Network :=
  { n with
    wire := n.wire ++ sent.map (mail source target)
    history := n.history ++ sent.map (mail source target) }

theorem mailed_nil (source target : Address) : n.mailed source target [] = n := by
  unfold mailed
  simp only [List.map_nil, List.append_nil]

theorem post_nil (source : Address) : n.post source [] = n := by
  unfold post
  simp only [List.map_nil, List.append_nil]

theorem post_mail (source target : Address) (sent : List Packet) :
    n.post source (sent.map fun p => ⟨target, p.frame⟩) = n.mailed source target sent := by
  unfold post mailed
  simp only [List.map_map]
  rfl

/-- A step of the client without faults. -/
theorem stepClient_idle (hsound : n.Sound a j) (hup : n.site.link = .up) (hidle : n.faults.Idle)
    (h : n.stepClient a = some n') :
    n.client.ended = false ∧
      ((∃ result, Machine.step n.client.machine n.client.queue = .stop result ∧
        n' = { n with client := n.client.finish result }) ∨
      ∃ d queue sent, Machine.step n.client.machine n.client.queue = .next d queue sent ∧
        n' = mailed { n with client := n.client.after d queue } a.client d.peer sent) := by
  unfold stepClient at h
  obtain ⟨⟨client, faults, left⟩, hadvance, rfl⟩ := Option.map_eq_some_iff.mp h
  rw [hup] at hadvance
  obtain ⟨hended, rfl, hcase⟩ := Station.advance_idle hidle
    (fun d queue sent hnext => hsound.client_short hnext) hadvance
  refine ⟨hended, ?_⟩
  rcases hcase with ⟨result, hstop, rfl, rfl⟩ | ⟨d, queue, sent, hnext, rfl, rfl⟩
  · exact Or.inl ⟨result, hstop, post_nil _⟩
  · exact Or.inr ⟨d, queue, sent, hnext, post_mail _ _ _⟩

/-- The network in which the only transfer has moved. -/
def moved (n : Network) (t : Transfer) (station : Station Upload) : Network :=
  { n with site := { n.site with
      server := if station.returned then n.site.server.close t.client else n.site.server
      transfers := [{ t with station := station }] } }

theorem replace_single (ht : n.site.transfers = [t]) (station : Station Upload)
    (left : List Departure) :
    n.replace 0 t (station, n.site.faults, left) = (n.moved t station).post t.address left := by
  unfold replace moved
  rw [ht]
  rfl

/-- The only transfer is the first. -/
theorem index_of_single {index : Nat} {t' : Transfer} (ht : n.site.transfers = [t])
    (h : n.site.transfers[index]? = some t') : index = 0 ∧ t' = t := by
  rw [ht] at h
  cases index with
  | zero =>
      rw [List.getElem?_cons_zero, Option.some.injEq] at h
      exact ⟨rfl, h.symm⟩
  | succ index => simp at h

/-- A step of the only transfer without faults. -/
theorem stepTransfer_idle (hsound : n.Sound a j) (ht : n.site.transfers = [t])
    (hup : n.site.link = .up) (hidle : n.site.faults.Idle) {index : Nat}
    (h : n.stepTransfer index = some n') :
    t.station.ended = false ∧
      ((∃ result, Machine.step t.station.machine t.station.queue = .stop result ∧
        n' = n.moved t (t.station.finish result)) ∨
      ∃ u queue sent, Machine.step t.station.machine t.station.queue = .next u queue sent ∧
        n' = (n.moved t (t.station.after u queue)).mailed t.address u.client sent) := by
  obtain ⟨t', ⟨station, faults, left⟩, ht', hadvance, rfl⟩ := stepTransfer_cases h
  obtain ⟨rfl, rfl⟩ := index_of_single ht ht'
  rw [hup] at hadvance
  have hupload := (hsound.transfers _ (List.mem_of_getElem? ht')).upload
  obtain ⟨hended, rfl, hcase⟩ := Station.advance_idle hidle
    (fun u queue sent hnext => Upload.step_short hupload hnext) hadvance
  refine ⟨hended, ?_⟩
  rcases hcase with ⟨result, hstop, rfl, rfl⟩ | ⟨u, queue, sent, hnext, rfl, rfl⟩
  · refine Or.inl ⟨result, hstop, ?_⟩
    rw [replace_single ht, post_nil]
  · refine Or.inr ⟨u, queue, sent, hnext, ?_⟩
    rw [replace_single ht]
    exact post_mail _ _ _

/-- Where a datagram arrives, when there is a single transfer. -/
theorem arrive_single (ht : n.site.transfers = [t]) (d : Delivery) :
    (d.departure.target = a.client ∧
      n.arrive a d = { n with client := n.client.enqueue [d.arrival] }) ∨
    (d.departure.target ≠ a.client ∧ d.departure.target = a.server ∧
      n.arrive a d = { n with inbox := n.inbox ++ [d.arrival] }) ∨
    (d.departure.target ≠ a.client ∧ d.departure.target = t.address ∧
      n.arrive a d = { n with site := { n.site with
        transfers := [{ t with station := t.station.enqueue [d.arrival] }] } }) ∨
    (d.departure.target ≠ a.client ∧ d.departure.target ≠ t.address ∧ n.arrive a d = n) := by
  unfold arrive
  by_cases hclient : d.departure.target = a.client
  · rw [if_pos hclient]
    exact Or.inl ⟨hclient, rfl⟩
  · rw [if_neg hclient]
    by_cases hserver : d.departure.target = a.server
    · rw [if_pos hserver]
      exact Or.inr (Or.inl ⟨hclient, hserver, rfl⟩)
    · rw [if_neg hserver]
      unfold Site.forward
      rw [ht]
      by_cases htransfer : t.address = d.departure.target
      · refine Or.inr (Or.inr (Or.inl ⟨hclient, htransfer.symm, ?_⟩))
        simp only [List.map_cons, List.map_nil, if_pos htransfer]
      · refine Or.inr (Or.inr (Or.inr ⟨hclient, fun h => htransfer h.symm, ?_⟩))
        simp only [List.map_cons, List.map_nil, if_neg htransfer]
        rw [← ht]

/-! ## What can happen -/

/-- The datagram overtakes none with the same source and target. -/
def InOrder (n : Network) (index : Nat) : Prop :=
  ∀ d, n.wire[index]? = some d → ∀ i < index, ∀ d', n.wire[i]? = some d' →
    d'.source = d.source → d'.departure.target ≠ d.departure.target

theorem inOrder_zero : n.InOrder 0 := fun _ _ _ hi => absurd hi (Nat.not_lt_zero _)

theorem stepClient_of_ne_wait (hended : n.client.ended = false)
    (hstep : Machine.step n.client.machine n.client.queue ≠ .wait) :
    ∃ n', n.stepClient a = some n' := by
  cases hadvance : n.client.advance n.site.link n.faults with
  | none => exact absurd (Station.step_of_advance_eq_none hadvance hended) hstep
  | some moved =>
      refine ⟨{ n with client := moved.1, faults := moved.2.1 }.post a.client moved.2.2, ?_⟩
      rw [stepClient, hadvance]
      rfl

/-- Unless nothing is under way and every machine waits or has ended, one of them can take a step, or a
datagram can arrive. -/
theorem goes_of_not_quiet (ht : n.site.transfers = [t]) (h : ¬ n.Quiet) :
    (∃ n', n.act a .client = some n') ∨ (∃ n', n.act a (.transfer 0) = some n') ∨
      ∃ n', n.act a (.deliver 0) = some n' := by
  by_cases hwire : n.wire = []
  · cases hclient : n.client.advance n.site.link n.faults with
    | some moved =>
        refine Or.inl ⟨{ n with client := moved.1, faults := moved.2.1 }.post a.client moved.2.2, ?_⟩
        show n.stepClient a = _
        rw [stepClient, hclient]
        rfl
    | none =>
        cases htransfer : t.station.advance n.site.link n.site.faults with
        | some moved =>
            refine Or.inr (Or.inl ⟨n.replace 0 t moved, ?_⟩)
            show n.stepTransfer 0 = _
            unfold stepTransfer
            rw [ht]
            simp [htransfer]
        | none =>
            refine absurd ⟨hwire, hclient, fun t' ht' => ?_⟩ h
            rw [ht, List.mem_singleton] at ht'
            rw [ht']
            exact htransfer
  · obtain ⟨d, rest, hcons⟩ := List.exists_cons_of_ne_nil hwire
    refine Or.inr (Or.inr ⟨arrive a { n with wire := n.wire.eraseIdx 0 } d, ?_⟩)
    show n.wire[0]?.map _ = _
    rw [hcons]
    rfl

end Network

end Scenario

end SelectiveReject
