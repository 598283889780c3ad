import SelectiveReject.Proofs.Script

/-!
# A file comes through undisturbed

On a network that loses nothing and lets nothing overtake, whatever the order in which the machines take
their steps, every run comes to an end in which the client has the file, both sides have ended well and each
packet has been sent once (`round_trip`).  No timer ever runs out.

```
start  →  asked  →  flowing 0 0 0  →  …  →  flowing (last + 2) (last + 2) (last + 1)
```

A network is `Flowing` with `k`, `r`, `q` when the transfer has sent `k` items, the client has read `r` of
them, and the transfer has read `q` answers; the rest of both is pending, in order.
-/

namespace SelectiveReject.Scenario

/-- Packets under way, one after the other. -/
def mails (source target : Address) (f : Nat → Packet) (first count : Nat) : List Delivery :=
  (List.range' first count).map fun i => mail source target (f i)

section
variable {source target other : Address} {f : Nat → Packet} {first count : Nat}
  {queue rest : List Arrival} {wire : List Delivery} {x : Arrival}

theorem mails_succ : mails source target f first (count + 1) =
    mails source target f first count ++ [mail source target (f (first + count))] := by
  unfold mails
  rw [List.range'_concat, Nat.one_mul, List.map_append]
  rfl

/-- What is read is the first that was pending. -/
theorem pending_head
    (h : pending (x :: rest) wire target = (mails source target f first count).map Delivery.arrival) :
    ∃ c, count = c + 1 ∧ x = ⟨source, (f first).frame⟩ ∧
      pending rest wire target = (mails source target f (first + 1) c).map Delivery.arrival := by
  rw [pending_cons] at h
  cases count with
  | zero => cases h
  | succ c =>
      obtain ⟨hx, hrest⟩ := List.cons.inj h
      exact ⟨c, rfl, hx, hrest⟩

theorem arrival_mail (sent : List Packet) : (sent.map (mail source target)).map Delivery.arrival =
    sent.map fun p => ⟨source, p.frame⟩ := by
  rw [List.map_map]
  rfl

/-- Answers that are sent come behind those that were sent before. -/
theorem mails_replies {j : Job} {r : Nat} (hone : 1 ≤ first) (h : first ≤ r ∨ r = 0) :
    mails source target j.answer first (r - first) ++
      (Download.replies j r).map (mail source target) =
      mails source target j.answer first (r + 1 - first) := by
  unfold Download.replies
  rcases h with h | rfl
  · have hcount : r + 1 - first = (r - first) + 1 := by omega
    have hlast : first + (r - first) = r := by omega
    rw [if_neg (by omega), hcount, mails_succ, hlast]
    rfl
  · have hcount : 0 + 1 - first = 0 - first := by omega
    rw [if_pos rfl, hcount]
    exact List.append_nil _

theorem filter_mails (sent : List Packet) :
    (sent.map (mail source target)).filter (fun d => d.source = source) =
      sent.map (mail source target) := by
  rw [List.filter_eq_self]
  intro d hd
  obtain ⟨p, -, rfl⟩ := List.mem_map.mp hd
  simp [mail]

theorem filter_mails_of_ne (h : source ≠ other) (sent : List Packet) :
    (sent.map (mail source target)).filter (fun d => d.source = other) = [] := by
  rw [List.filter_eq_nil_iff]
  intro d hd
  obtain ⟨p, -, rfl⟩ := List.mem_map.mp hd
  intro hsource
  exact h (of_decide_eq_true hsource)

end

namespace Network

/-- What may happen while nothing is lost or overtaken.  A wait is over only when every machine waits or has
ended and nothing is queued for any. -/
def Allows (n : Network) : Event → Prop
  | .client | .request | .transfer _ => True
  | .deliver index => n.InOrder index
  | .clientTimer | .transferTimer _ => n.Quiet ∧ n.inbox = []
  | .lose _ | .duplicate _ | .damage _ _ => False

/-- What happens while nothing is lost or overtaken. -/
def Orderly (a : Addresses) (n next : Network) : Prop :=
  ∃ event, n.Allows event ∧ n.act a event = some next

/-- The client and its only transfer have ended well, the client has the file, and each has sent what it had
to say, once and in order. -/
structure Completed (a : Addresses) (j : Job) (n : Network) (t : Transfer) : Prop where
  client : n.client.result = some (.ok j.received)
  file : n.client.machine.file = some j.file
  transfers : n.site.transfers = [t]
  transfer : t.station.result = some (.ok j.transferred)
  inactive : n.site.server.active = []
  fromTransfer : n.history.filter (fun d => d.source = t.address) =
    mails t.address a.client j.item 0 (j.last + 2)
  fromClient : n.history.filter (fun d => d.source = a.client) =
    mail a.client a.server j.request.toPacket ::
      mails a.client t.address j.answer 1 (j.last + 1)
  senders : ∀ d ∈ n.history, d.source = t.address ∨ d.source = a.client

/-- The transfer has sent `k` items, the client has read `r` of them, and the transfer has read `q` answers;
everything else that was sent is pending. -/
structure Flowing (a : Addresses) (j : Job) (n : Network) (t : Transfer) (k r q : Nat) : Prop where
  sound : n.Sound a j
  up : n.site.link = .up
  idle : n.faults.Idle
  idleSite : n.site.faults.Idle
  transfers : n.site.transfers = [t]
  inbox : n.inbox = []
  wire : ∀ d ∈ n.wire, d.source = t.address ∧ d.departure.target = a.client ∨
    d.source = a.client ∧ d.departure.target = t.address
  order : r ≤ k ∧ q ≤ r - 1
  toClient : pending n.client.queue n.wire a.client =
    (mails t.address a.client j.item r (k - r)).map Delivery.arrival
  toTransfer : pending t.station.queue n.wire t.address =
    (mails a.client t.address j.answer (q + 1) (r - (q + 1))).map Delivery.arrival
  read : n.client.machine.HasRead j t.address r
  sent : t.station.machine.HasSent j k q
  clientClean : n.client.channel.dropped = 0 ∧ n.client.channel.flipped = 0
  clean : t.station.channel.dropped = 0 ∧ t.station.channel.flipped = 0
  clientResult : n.client.result = none ∨
    r = j.last + 2 ∧ n.client.result = some (.ok j.received)
  result : t.station.result = none ∨
    q = j.last + 1 ∧ t.station.result = some (.ok j.transferred)
  active : n.site.server.active =
    if t.station.ended then [] else [(a.client, j.request.name)]
  fromTransfer : n.history.filter (fun d => d.source = t.address) =
    mails t.address a.client j.item 0 k
  fromClient : n.history.filter (fun d => d.source = a.client) =
    mail a.client a.server j.request.toPacket :: mails a.client t.address j.answer 1 (r - 1)
  senders : ∀ d ∈ n.history, d.source = t.address ∨ d.source = a.client

/-- How urgent the next steps of client and transfer are. -/
def rush (n : Network) (t : Transfer) : Nat :=
  (if n.client.ended then 0 else n.client.machine.urge) +
    (if t.station.ended then 0 else t.station.machine.urge t.station.queue)

/-- How far a flowing network is from its end. -/
def remaining (j : Job) (n : Network) (t : Transfer) (k r q : Nat) : Nat × Nat × Nat × Nat :=
  (0, (j.last + 2 - k) + (j.last + 2 - r) + (j.last + 1 - q), n.wire.length, n.rush t)

variable {a : Addresses} {j : Job} {n n' : Network} {t : Transfer} {k r q : Nat}

/-! ## The client -/

/-- What the client reads next. -/
theorem Flowing.next_item (h : Flowing a j n t k r q) (x : Arrival) (rest : List Arrival)
    (hqueue : n.client.queue = x :: rest) :
    r ≤ j.last + 1 ∧ x.source = t.address ∧ x.packet = .ok (j.item r) := by
  have hpending := h.toClient
  rw [hqueue] at hpending
  obtain ⟨c, hc, rfl, -⟩ := pending_head hpending
  have hbounds := h.sent.bounds
  exact ⟨by omega, rfl, Arrival.packet_frame (j.item_short r)⟩

/-- The client ends when it has read everything. -/
theorem Flowing.client_ends (h : Flowing a j n t k r q) (hended : n.client.ended = false)
    (hr : r = j.last + 2) (hurge : n.client.machine.urge = 1)
    (hsound' : Sound a j { n with client := n.client.finish (.ok j.received) }) :
    Flowing a j { n with client := n.client.finish (.ok j.received) } t k r q ∧
      Nearer (remaining j { n with client := n.client.finish (.ok j.received) } t k r q)
        (remaining j n t k r q) := by
  obtain ⟨hdropped, hflipped⟩ := h.clientClean
  have hresult : (n.client.finish (.ok j.received)).result = some (.ok j.received) := by
    unfold Station.finish Job.received
    simp only [Except.map, hdropped, hflipped]
  refine ⟨{ h with
      sound := hsound'
      clientClean := h.clientClean
      clientResult := Or.inr ⟨hr, hresult⟩ },
    nearer_of_numbers (Or.inr ⟨rfl, Or.inr ⟨rfl, Or.inr ⟨rfl, ?_⟩⟩⟩)⟩
  show 0 + _ < (if n.client.ended then 0 else n.client.machine.urge) + _
  rw [hended, hurge]
  exact Nat.add_lt_add_right Nat.zero_lt_one _

/-- A client that does not read comes nearer to its next wait. -/
theorem Flowing.client_rests (h : Flowing a j n t k r q) (hended : n.client.ended = false)
    {d : Download} (hread : d.HasRead j t.address r) (hurge : d.urge < n.client.machine.urge)
    (hsound' : Sound a j { n with client := n.client.after d n.client.queue }) :
    Flowing a j { n with client := n.client.after d n.client.queue } t k r q ∧
      Nearer (remaining j { n with client := n.client.after d n.client.queue } t k r q)
        (remaining j n t k r q) := by
  refine ⟨{ h with
      sound := hsound'
      read := hread
      clientClean := h.clientClean
      clientResult := Or.inl rfl },
    nearer_of_numbers (Or.inr ⟨rfl, Or.inr ⟨rfl, Or.inr ⟨rfl, ?_⟩⟩⟩)⟩
  show d.urge + _ < (if n.client.ended then 0 else n.client.machine.urge) + _
  rw [hended]
  exact Nat.add_lt_add_right hurge _

/-- What the client sends in answer to an item is behind its other answers. -/
theorem Flowing.client_reads (h : Flowing a j n t k r q) (hr : r ≤ j.last + 1) {d : Download}
    {x : Arrival} {queue : List Arrival} (hqueue : n.client.queue = x :: queue)
    (hread : d.HasRead j t.address (r + 1))
    (hsound' : Sound a j (mailed { n with client := n.client.after d queue } a.client t.address
      (Download.replies j r))) :
    Flowing a j (mailed { n with client := n.client.after d queue } a.client t.address
        (Download.replies j r)) t k (r + 1) q ∧
      Nearer (remaining j (mailed { n with client := n.client.after d queue } a.client t.address
        (Download.replies j r)) t k (r + 1) q) (remaining j n t k r q) := by
  obtain ⟨haway, -⟩ := h.sound.address_ne (by simp [h.transfers] : t ∈ n.site.transfers)
  obtain ⟨hrk, hqr⟩ := h.order
  have hpending := h.toClient
  rw [hqueue] at hpending
  obtain ⟨c, hc, -, hrest⟩ := pending_head hpending
  have hc' : k - (r + 1) = c := by omega
  have horder : q + 1 ≤ r ∨ r = 0 := by omega
  refine ⟨{ h with
      sound := hsound'
      wire := List.forall_mem_append.mpr
        ⟨h.wire, List.forall_mem_map.mpr fun p _ => Or.inr ⟨rfl, rfl⟩⟩
      order := ⟨by omega, by omega⟩
      toClient := ?_
      toTransfer := ?_
      read := hread
      clientClean := h.clientClean
      clientResult := Or.inl rfl
      fromTransfer := ?_
      fromClient := ?_
      senders := List.forall_mem_append.mpr
        ⟨h.senders, List.forall_mem_map.mpr fun p _ => Or.inr rfl⟩ },
    nearer_of_numbers (Or.inr ⟨rfl, Or.inl (by omega)⟩)⟩
  · show pending queue (n.wire ++ _) a.client = _
    rw [pending_mail_of_ne haway, hrest, hc']
  · show pending t.station.queue (n.wire ++ _) t.address = _
    rw [pending_mail, h.toTransfer, ← arrival_mail, ← List.map_append,
      mails_replies (Nat.le_add_left 1 q) horder]
  · show (n.history ++ _).filter _ = _
    rw [List.filter_append, h.fromTransfer, filter_mails_of_ne (Ne.symm haway), List.append_nil]
  · show (n.history ++ _).filter _ = _
    rw [List.filter_append, h.fromClient, filter_mails, List.cons_append,
      mails_replies (Nat.le_refl 1) (by omega)]

/-- A step of the client keeps the network flowing, and brings it nearer to its end. -/
theorem Flowing.client_step (h : Flowing a j n t k r q) (hstep : n.stepClient a = some n') :
    ∃ r', Flowing a j n' t k r' q ∧ Nearer (remaining j n' t k r' q) (remaining j n t k r q) := by
  have hsound' := h.sound.stepClient hstep
  have hgoes := h.sound.client_goes
  obtain ⟨hended, hcase⟩ := stepClient_idle h.sound h.up h.idle hstep
  rcases hcase with ⟨result, hstop, rfl⟩ | ⟨d, queue, sent, hnext, rfl⟩
  · rw [hstop] at hgoes
    obtain ⟨hr, rfl, hurge⟩ := h.read.ends h.sound.client.fits h.next_item hgoes
    exact ⟨r, h.client_ends hended hr hurge hsound'⟩
  · rw [hnext] at hgoes
    rcases h.read.step h.next_item hgoes with
      ⟨rfl, rfl, hread, hurge⟩ | ⟨hr, ⟨x, hqueue⟩, hread, rfl⟩
    · rw [mailed_nil] at hsound' ⊢
      exact ⟨r, h.client_rests hended hread hurge hsound'⟩
    · have hpeer : d.peer = t.address := hread.peer (Nat.le_add_left 1 r)
      rw [hpeer] at hsound' ⊢
      exact ⟨r + 1, h.client_reads hr hqueue hread hsound'⟩

/-! ## The transfer -/

/-- What the transfer reads next. -/
theorem Flowing.next_answer (h : Flowing a j n t k r q) (x : Arrival) (rest : List Arrival)
    (hqueue : t.station.queue = x :: rest) :
    q + 1 < k ∧ x.source = a.client ∧ x.packet = .ok (j.answer (q + 1)) := by
  have hpending := h.toTransfer
  rw [hqueue] at hpending
  obtain ⟨c, hc, rfl, -⟩ := pending_head hpending
  obtain ⟨hrk, -⟩ := h.order
  exact ⟨by omega, rfl, Arrival.packet_frame (j.answer_short (q + 1))⟩

theorem Flowing.active_running (h : Flowing a j n t k r q) (hended : t.station.ended = false) :
    n.site.server.active = [(a.client, j.request.name)] := by
  rw [h.active, hended]
  rfl

/-- The transfer ends when it has read every answer, and the registry forgets it. -/
theorem Flowing.transfer_ends (h : Flowing a j n t k r q) (hended : t.station.ended = false)
    (hq : q = j.last + 1) (hurge : t.station.machine.urge t.station.queue = 1)
    (hsound' : Sound a j (n.moved t (t.station.finish (.ok j.transferred)))) :
    Flowing a j (n.moved t (t.station.finish (.ok j.transferred)))
        { t with station := t.station.finish (.ok j.transferred) } k r q ∧
      Nearer (remaining j (n.moved t (t.station.finish (.ok j.transferred)))
        { t with station := t.station.finish (.ok j.transferred) } k r q)
        (remaining j n t k r q) := by
  obtain ⟨hdropped, hflipped⟩ := h.clean
  have hresult : (t.station.finish (.ok j.transferred)).result = some (.ok j.transferred) := by
    unfold Station.finish Job.transferred
    simp only [Except.map, hdropped, hflipped]
  have hforgotten : (n.site.server.close t.client).active = [] := by
    have hclient : t.client = a.client := (h.sound.transfers t (by simp [h.transfers])).client
    unfold Server.close
    rw [h.active_running hended, hclient]
    simp
  refine ⟨{ h with
      sound := hsound'
      transfers := rfl
      clean := h.clean
      result := Or.inr ⟨hq, hresult⟩
      active := hforgotten },
    nearer_of_numbers (Or.inr ⟨rfl, Or.inr ⟨rfl, Or.inr ⟨rfl, ?_⟩⟩⟩)⟩
  show _ + 0 < _ + (if t.station.ended then 0 else t.station.machine.urge t.station.queue)
  rw [hended, hurge]
  exact Nat.lt_succ_self _

/-- The item that the transfer sends is behind its other items. -/
theorem Flowing.transfer_sends (h : Flowing a j n t k r q) (hended : t.station.ended = false)
    {u : Upload} (hsent : u.HasSent j (k + 1) q)
    (hsound' : Sound a j ((n.moved t (t.station.after u t.station.queue)).mailed t.address a.client
      [j.item k])) :
    Flowing a j ((n.moved t (t.station.after u t.station.queue)).mailed t.address a.client
        [j.item k]) { t with station := t.station.after u t.station.queue } (k + 1) r q ∧
      Nearer (remaining j ((n.moved t (t.station.after u t.station.queue)).mailed t.address a.client
        [j.item k]) { t with station := t.station.after u t.station.queue } (k + 1) r q)
        (remaining j n t k r q) := by
  obtain ⟨haway, -⟩ := h.sound.address_ne (by simp [h.transfers] : t ∈ n.site.transfers)
  obtain ⟨hrk, hqr⟩ := h.order
  have hbounds := hsent.bounds
  have hcount : k + 1 - r = (k - r) + 1 := by omega
  have hlast : r + (k - r) = k := by omega
  refine ⟨{ h with
      sound := hsound'
      transfers := rfl
      wire := List.forall_mem_append.mpr
        ⟨h.wire, List.forall_mem_map.mpr fun p _ => Or.inl ⟨rfl, rfl⟩⟩
      order := ⟨by omega, hqr⟩
      toClient := ?_
      toTransfer := ?_
      sent := hsent
      clean := h.clean
      result := Or.inl rfl
      active := h.active_running hended
      fromTransfer := ?_
      fromClient := ?_
      senders := List.forall_mem_append.mpr
        ⟨h.senders, List.forall_mem_map.mpr fun p _ => Or.inl rfl⟩ },
    nearer_of_numbers (Or.inr ⟨rfl, Or.inl (by omega)⟩)⟩
  · show pending n.client.queue (n.wire ++ _) a.client = _
    rw [pending_mail, h.toClient, ← arrival_mail, ← List.map_append, hcount, mails_succ, hlast]
    rfl
  · show pending t.station.queue (n.wire ++ _) t.address = _
    rw [pending_mail_of_ne (Ne.symm haway), h.toTransfer]
  · show (n.history ++ _).filter _ = _
    rw [List.filter_append, h.fromTransfer, filter_mails, mails_succ, Nat.zero_add]
    rfl
  · show (n.history ++ _).filter _ = _
    rw [List.filter_append, h.fromClient, filter_mails_of_ne haway, List.append_nil]

/-- The answer that the transfer reads is the first that is pending. -/
theorem Flowing.transfer_reads (h : Flowing a j n t k r q) (hended : t.station.ended = false)
    {u : Upload} {x : Arrival} {queue : List Arrival} (hqueue : t.station.queue = x :: queue)
    (hsent : u.HasSent j k (q + 1)) (hsound' : Sound a j (n.moved t (t.station.after u queue))) :
    Flowing a j (n.moved t (t.station.after u queue))
        { t with station := t.station.after u queue } k r (q + 1) ∧
      Nearer (remaining j (n.moved t (t.station.after u queue))
        { t with station := t.station.after u queue } k r (q + 1)) (remaining j n t k r q) := by
  obtain ⟨hrk, hqr⟩ := h.order
  have hbounds := hsent.bounds
  have hpending := h.toTransfer
  rw [hqueue] at hpending
  obtain ⟨c, hc, -, hrest⟩ := pending_head hpending
  have hc' : r - (q + 1 + 1) = c := by omega
  refine ⟨{ h with
      sound := hsound'
      transfers := rfl
      order := ⟨hrk, by omega⟩
      toTransfer := ?_
      sent := hsent
      clean := h.clean
      result := Or.inl rfl
      active := h.active_running hended }, nearer_of_numbers (Or.inr ⟨rfl, Or.inl (by omega)⟩)⟩
  show pending queue n.wire t.address = _
  rw [hrest, hc']

/-- A transfer that neither reads nor sends comes nearer to its next wait. -/
theorem Flowing.transfer_rests (h : Flowing a j n t k r q) (hended : t.station.ended = false)
    {u : Upload} (hsent : u.HasSent j k q)
    (hurge : u.urge t.station.queue < t.station.machine.urge t.station.queue)
    (hsound' : Sound a j (n.moved t (t.station.after u t.station.queue))) :
    Flowing a j (n.moved t (t.station.after u t.station.queue))
        { t with station := t.station.after u t.station.queue } k r q ∧
      Nearer (remaining j (n.moved t (t.station.after u t.station.queue))
        { t with station := t.station.after u t.station.queue } k r q) (remaining j n t k r q) := by
  refine ⟨{ h with
      sound := hsound'
      transfers := rfl
      sent := hsent
      clean := h.clean
      result := Or.inl rfl
      active := h.active_running hended },
    nearer_of_numbers (Or.inr ⟨rfl, Or.inr ⟨rfl, Or.inr ⟨rfl, ?_⟩⟩⟩)⟩
  show _ + u.urge t.station.queue <
    _ + (if t.station.ended then 0 else t.station.machine.urge t.station.queue)
  rw [hended]
  exact Nat.add_lt_add_left hurge _

/-- A step of the transfer keeps the network flowing, and brings it nearer to its end. -/
theorem Flowing.transfer_step (h : Flowing a j n t k r q) {index : Nat}
    (hstep : n.stepTransfer index = some n') :
    ∃ t' k' q', Flowing a j n' t' k' r q' ∧
      Nearer (remaining j n' t' k' r q') (remaining j n t k r q) := by
  have hsound' := h.sound.stepTransfer hstep
  have htransfer := h.sound.transfers t (by simp [h.transfers])
  obtain ⟨hended, hcase⟩ := stepTransfer_idle h.sound h.transfers h.up h.idleSite hstep
  rcases hcase with ⟨result, hstop, rfl⟩ | ⟨u, queue, sent, hnext, rfl⟩
  · obtain ⟨hq, rfl, hurge⟩ := h.sent.ends htransfer.upload hstop
    exact ⟨_, k, q, h.transfer_ends hended hq hurge hsound'⟩
  · have hclient : u.client = a.client :=
      (hsound'.transfers { t with station := t.station.after u queue } (by
        show _ ∈ [_]
        exact List.mem_singleton.mpr rfl)).upload.client
    rw [hclient] at hsound' ⊢
    rcases h.sent.step htransfer.upload h.next_answer hnext with
      ⟨rfl, hsent, rfl⟩ | ⟨⟨x, hqueue⟩, hsent, rfl⟩ | ⟨rfl, hsent, rfl, hurge⟩
    · exact ⟨_, k + 1, q, h.transfer_sends hended hsent hsound'⟩
    · rw [mailed_nil] at hsound' ⊢
      exact ⟨_, k, q + 1, h.transfer_reads hended hqueue hsent hsound'⟩
    · rw [mailed_nil] at hsound' ⊢
      exact ⟨_, k, q, h.transfer_rests hended hsent hurge hsound'⟩

/-! ## The network -/

/-- A datagram that arrives in order stays in its place among those that are pending. -/
theorem Flowing.deliver (h : Flowing a j n t k r q) {index : Nat} (horder : n.InOrder index)
    (hstep : n.act a (.deliver index) = some n') :
    ∃ t', Flowing a j n' t' k r q ∧ Nearer (remaining j n' t' k r q) (remaining j n t k r q) := by
  have hsound' := h.sound.act hstep
  obtain ⟨d, hd, rfl⟩ := Option.map_eq_some_iff.mp hstep
  obtain ⟨haway, hserver⟩ := h.sound.address_ne (by simp [h.transfers] : t ∈ n.site.transfers)
  have hwire := h.wire d (List.mem_of_getElem? hd)
  have hwire' : ∀ d' ∈ n.wire.eraseIdx index, d'.source = t.address ∧
      d'.departure.target = a.client ∨ d'.source = a.client ∧ d'.departure.target = t.address :=
    fun d' hd' => h.wire d' (List.mem_of_mem_eraseIdx hd')
  -- whatever has the same target has the same source, so nothing is overtaken
  have hfirst : ∀ i < index, ∀ d', n.wire[i]? = some d' →
      d'.departure.target ≠ d.departure.target := by
    intro i hi d' hd' hsame
    refine horder d hd i hi d' hd' ?_ hsame
    rcases h.wire d' (List.mem_of_getElem? hd') with ⟨hs, ht⟩ | ⟨hs, ht⟩ <;>
      rcases hwire with ⟨hs', ht'⟩ | ⟨hs', ht'⟩
    · rw [hs, hs']
    · exact absurd (ht'.symm.trans (hsame.symm.trans ht)) haway
    · exact absurd (ht.symm.trans (hsame.trans ht')) haway
    · rw [hs, hs']
  have hshorter : (n.wire.eraseIdx index).length < n.wire.length := by
    obtain ⟨hlt, -⟩ := List.getElem?_eq_some_iff.mp hd
    rw [List.length_eraseIdx_of_lt hlt]
    omega
  have hnearer : ∀ rush rush' : Nat,
      Nearer (0, (j.last + 2 - k) + (j.last + 2 - r) + (j.last + 1 - q),
        (n.wire.eraseIdx index).length, rush')
      (0, (j.last + 2 - k) + (j.last + 2 - r) + (j.last + 1 - q), n.wire.length, rush) :=
    fun _ _ => nearer_of_numbers (Or.inr ⟨rfl, Or.inr ⟨rfl, Or.inl hshorter⟩⟩)
  rcases @arrive_single a { n with wire := n.wire.eraseIdx index } t h.transfers d with
    ⟨htarget, harrive⟩ | ⟨hnot, htarget, harrive⟩ | ⟨hnot, htarget, harrive⟩ |
    ⟨hnot, hnot', harrive⟩
  · rw [harrive] at hsound' ⊢
    refine ⟨t, { h with
        sound := hsound'
        wire := hwire'
        toClient := ?_
        toTransfer := ?_
        clientClean := h.clientClean }, hnearer _ _⟩
    · show pending (n.client.queue ++ [d.arrival]) (n.wire.eraseIdx index) a.client = _
      rw [pending_arrived hd htarget (htarget ▸ hfirst), h.toClient]
    · show pending t.station.queue (n.wire.eraseIdx index) t.address = _
      rw [pending_elsewhere hd (by rw [htarget]; exact Ne.symm haway), h.toTransfer]
  · rcases hwire with ⟨-, htarget'⟩ | ⟨-, htarget'⟩
    · exact absurd htarget' hnot
    · exact absurd (htarget'.symm.trans htarget) hserver
  · rw [harrive] at hsound' ⊢
    refine ⟨{ t with station := t.station.enqueue [d.arrival] }, { h with
        sound := hsound'
        transfers := rfl
        wire := hwire'
        toClient := ?_
        toTransfer := ?_
        clean := h.clean
        active := h.active }, hnearer _ _⟩
    · show pending n.client.queue (n.wire.eraseIdx index) a.client = _
      rw [pending_elsewhere hd hnot, h.toClient]
    · show pending (t.station.queue ++ [d.arrival]) (n.wire.eraseIdx index) t.address = _
      rw [pending_arrived hd htarget (htarget ▸ hfirst), h.toTransfer]
  · rcases hwire with ⟨-, htarget'⟩ | ⟨-, htarget'⟩
    · exact absurd htarget' hnot
    · exact absurd htarget' hnot'

/-- When nothing can happen any more, the file has come through. -/
theorem Flowing.completed (h : Flowing a j n t k r q) (hquiet : n.Quiet) : Completed a j n t := by
  obtain ⟨hwire, hclient, htransfers⟩ := hquiet
  have hadvance := htransfers t (by simp [h.transfers])
  have htransfer := h.sound.transfers t (by simp [h.transfers])
  obtain ⟨hrk, hqr⟩ := h.order
  have hbounds := h.sent.bounds
  have hempty : ∀ {queue : List Arrival} {target source : Address} {f : Nat → Packet}
      {first count : Nat}, queue = [] →
      pending queue n.wire target = (mails source target f first count).map Delivery.arrival →
      count = 0 := by
    intro queue target source f first count hqueue hpending
    rw [hqueue, hwire] at hpending
    cases count with
    | zero => rfl
    | succ count => cases hpending
  -- who has not ended waits, and has read everything that was sent to it
  have hclientEnded : r = k ∧ r ≤ j.last + 1 ∨
      r = j.last + 2 ∧ n.client.result = some (.ok j.received) := by
    rcases h.clientResult with hnone | hend
    · left
      have hstep := Station.step_of_advance_eq_none hclient (by rw [Station.ended, hnone]; rfl)
      have hgoes := h.sound.client_goes
      rw [hstep] at hgoes
      obtain ⟨hqueue, hlast⟩ := h.read.waits hgoes
      have := hempty hqueue h.toClient
      exact ⟨by omega, hlast⟩
    · exact Or.inr hend
  have hended : q + 1 < k ∧ r ≤ q + 1 ∨
      q = j.last + 1 ∧ t.station.result = some (.ok j.transferred) := by
    rcases h.result with hnone | hend
    · left
      have hstep := Station.step_of_advance_eq_none hadvance (by rw [Station.ended, hnone]; rfl)
      obtain ⟨hqueue, hlast⟩ := h.sent.waits htransfer.upload hstep
      have := hempty hqueue h.toTransfer
      exact ⟨hlast, by omega⟩
    · exact Or.inr hend
  obtain ⟨hq, hresult⟩ : q = j.last + 1 ∧ t.station.result = some (.ok j.transferred) := by
    rcases hended with hended | hend
    · rcases hclientEnded with hclientEnded | hclientEnd <;> omega
    · exact hend
  obtain ⟨hr, hclientResult⟩ : r = j.last + 2 ∧ n.client.result = some (.ok j.received) := by
    rcases hclientEnded with hclientEnded | hclientEnd
    · omega
    · exact hclientEnd
  obtain rfl : k = j.last + 2 := by omega
  subst hr
  refine ⟨hclientResult,
    (h.sound.written_of_finished (h.sound.clientEnded _ hclientResult)).2, h.transfers, hresult, ?_,
    h.fromTransfer, h.fromClient, h.senders⟩
  rw [h.active, Station.ended, hresult]
  rfl

/-- What is allowed in a flowing network brings it nearer to its end. -/
theorem Flowing.orderly_step (h : Flowing a j n t k r q) (hnot : ¬ Completed a j n t)
    (hstep : Orderly a n n') :
    ∃ t' k' r' q', Flowing a j n' t' k' r' q' ∧
      Nearer (remaining j n' t' k' r' q') (remaining j n t k r q) := by
  obtain ⟨event, hallows, hact⟩ := hstep
  cases event with
  | client =>
      obtain ⟨r', hflowing, hnearer⟩ := h.client_step hact
      exact ⟨t, k, r', q, hflowing, hnearer⟩
  | request =>
      unfold act stepServer at hact
      rw [h.inbox] at hact
      cases hact
  | transfer index =>
      obtain ⟨t', k', q', hflowing, hnearer⟩ := h.transfer_step hact
      exact ⟨t', k', r, q', hflowing, hnearer⟩
  | deliver index =>
      obtain ⟨t', hflowing, hnearer⟩ := h.deliver hallows hact
      exact ⟨t', k, r, q, hflowing, hnearer⟩
  | clientTimer => exact absurd (h.completed hallows.1) hnot
  | transferTimer index => exact absurd (h.completed hallows.1) hnot
  | lose index => exact hallows.elim
  | duplicate index => exact hallows.elim
  | damage index bit => exact hallows.elim

/-- Before the file has come through, something can happen. -/
theorem Flowing.goes (h : Flowing a j n t k r q) (hnot : ¬ Completed a j n t) :
    ∃ n', Orderly a n n' := by
  rcases goes_of_not_quiet h.transfers fun hquiet => hnot (h.completed hquiet) with
    ⟨n', hact⟩ | ⟨n', hact⟩ | ⟨n', hact⟩
  · exact ⟨n', .client, trivial, hact⟩
  · exact ⟨n', .transfer 0, trivial, hact⟩
  · exact ⟨n', .deliver 0, inOrder_zero, hact⟩

/-! ## Before the transfer -/

end Network

/-- Nothing disturbs the setup: the link is up, no faults are added, the server knows of no transfer, and
each side may wait at least once. -/
structure Setup.Undisturbed (s : Setup) : Prop where
  up : s.site.link = .up
  idle : s.faults.Idle
  idleSite : s.site.faults.Idle
  inactive : s.site.server.active = []
  creatable : s.fetch.creatable = true
  tries : 1 ≤ s.config.maxTries ∧ s.config.maxTries < limit32
  serverTries : 1 ≤ s.site.server.config.maxTries ∧ s.site.server.config.maxTries < limit32

/-- What the client of an undisturbed setup does first. -/
theorem Setup.asks {s : Setup} (hs : s.Undisturbed) : ∃ d, Machine.step s.download [] =
    .next d [] [s.job.request.toPacket] ∧ d.peer = s.addresses.server ∧
    d.HasRead s.job (s.site.address s.site.begun) 0 := by
  rw [s.started_eq.2]
  exact Download.hasRead_asked _ rfl rfl hs.creatable rfl hs.tries

namespace Network

/-- The request of a client. -/
def request (s : Setup) : Delivery :=
  mail s.addresses.client s.addresses.server s.job.request.toPacket

/-- The client has asked, and the request is under way or has arrived. -/
structure Asked (s : Setup) (n : Network) : Prop where
  sound : n.Sound s.addresses s.job
  site : n.site = s.site
  faults : n.faults = s.faults
  queue : n.client.queue = []
  result : n.client.result = none
  clean : n.client.channel.dropped = 0 ∧ n.client.channel.flipped = 0
  read : n.client.machine.HasRead s.job (s.site.address s.site.begun) 0
  history : n.history = [request s]
  waiting : n.wire = [request s] ∧ n.inbox = [] ∨ n.wire = [] ∧ n.inbox = [(request s).arrival]

variable {s : Setup} {n n' : Network}

/-- A client that has not asked yet asks. -/
theorem asked_of_start (hs : s.Undisturbed) (hstep : s.start.stepClient s.addresses = some n') :
    Asked s n' := by
  have hsound := sound_start s
  have hsound' := hsound.stepClient hstep
  obtain ⟨d, hask, hpeer, hread⟩ := Setup.asks hs
  obtain ⟨-, hcase⟩ := stepClient_idle hsound hs.up hs.idle hstep
  rcases hcase with ⟨result, hstop, -⟩ | ⟨d', queue, sent, hnext, hn'⟩
  · change Machine.step s.download [] = _ at hstop
    rw [hask] at hstop
    cases hstop
  · change Machine.step s.download [] = _ at hnext
    rw [hask, Move.next.injEq] at hnext
    obtain ⟨rfl, rfl, rfl⟩ := hnext
    rw [hpeer] at hn'
    subst hn'
    exact ⟨hsound', rfl, rfl, rfl, rfl, ⟨rfl, rfl⟩, hread, rfl, Or.inl ⟨rfl, rfl⟩⟩

/-- How far a network is from its end in which the client has asked. -/
def toServer (n : Network) : Nat × Nat × Nat × Nat :=
  (1, 0, 2 * n.wire.length + n.inbox.length, n.client.machine.urge)

/-- A client that has asked begins to wait. -/
theorem Asked.client_step (h : Asked s n) (hs : s.Undisturbed)
    (hstep : n.stepClient s.addresses = some n') : Asked s n' ∧ Nearer n'.toServer n.toServer := by
  have hsound' := h.sound.stepClient hstep
  have hgoes := h.sound.client_goes
  have hup : n.site.link = .up := by rw [h.site, hs.up]
  have hidle : n.faults.Idle := by
    rw [h.faults]
    exact hs.idle
  have hnone : ∀ x rest, n.client.queue = x :: rest → 0 ≤ s.job.last + 1 ∧
      x.source = s.site.address s.site.begun ∧ x.packet = .ok (s.job.item 0) := by
    intro x rest hqueue
    rw [h.queue] at hqueue
    cases hqueue
  obtain ⟨-, hcase⟩ := stepClient_idle h.sound hup hidle hstep
  rcases hcase with ⟨result, hstop, -⟩ | ⟨d, queue, sent, hnext, rfl⟩
  · rw [hstop] at hgoes
    obtain ⟨hr, -⟩ := h.read.ends h.sound.client.fits hnone hgoes
    omega
  · rw [hnext] at hgoes
    rcases h.read.step hnone hgoes with ⟨rfl, rfl, hread, hurge⟩ | ⟨-, ⟨x, hqueue⟩, -⟩
    · rw [mailed_nil] at hsound' ⊢
      exact ⟨{ h with
          sound := hsound'
          result := rfl
          clean := h.clean
          read := hread }, nearer_of_numbers (Or.inr ⟨rfl, Or.inr ⟨rfl, Or.inr ⟨rfl, hurge⟩⟩⟩)⟩
    · rw [h.queue] at hqueue
      cases hqueue

/-- The request arrives at the server. -/
theorem Asked.deliver (h : Asked s n) {index : Nat}
    (hstep : n.act s.addresses (.deliver index) = some n') :
    Asked s n' ∧ Nearer n'.toServer n.toServer := by
  have hsound' := h.sound.act hstep
  obtain ⟨d, hd, rfl⟩ := Option.map_eq_some_iff.mp hstep
  rcases h.waiting with ⟨hwire, hinbox⟩ | ⟨hwire, -⟩
  · obtain ⟨rfl, rfl⟩ : index = 0 ∧ d = request s := by
      rw [hwire] at hd
      cases index with
      | zero => exact ⟨rfl, (Option.some.inj hd).symm⟩
      | succ index => simp at hd
    have harrive : arrive s.addresses { n with wire := n.wire.eraseIdx 0 } (request s) =
        { n with wire := [], inbox := [(request s).arrival] } := by
      have haway : (request s).departure.target ≠ s.addresses.client := s.addresses.apart
      have hserver : (request s).departure.target = s.addresses.server := rfl
      unfold arrive
      rw [if_neg haway, if_pos hserver, hwire, hinbox]
      rfl
    rw [harrive] at hsound' ⊢
    refine ⟨{ h with
        sound := hsound'
        waiting := Or.inr ⟨rfl, rfl⟩ },
      nearer_of_numbers (Or.inr ⟨rfl, Or.inr ⟨rfl, Or.inl ?_⟩⟩)⟩
    rw [hwire, hinbox]
    exact Nat.lt_succ_self 1
  · rw [hwire] at hd
    simp at hd

/-- The request starts the first transfer. -/
theorem Setup.receive_request (hs : s.Undisturbed) : s.site.receive (request s).arrival = { s.site with
    server := { s.site.server with active := [(s.addresses.client, s.job.request.name)] }
    begun := s.site.begun + 1
    transfers := [⟨s.site.address s.site.begun, s.addresses.client,
      .start (.opening s.site.server.config s.job.request s.addresses.client
        (s.site.file s.job.request.name))⟩] } := by
  have hpacket : (request s).arrival.packet = .ok s.job.request.toPacket :=
    Arrival.packet_frame (FileRequest.length_toPayload s.job.valid)
  have hserver : s.site.server.receive (request s).arrival =
      ({ s.site.server with active := [(s.addresses.client, s.job.request.name)] },
        some s.job.request) := by
    unfold Server.receive
    rw [Server.request_eq hpacket rfl rfl s.job.valid]
    unfold Server.serves
    simp only [hs.inactive, List.any_nil, Bool.false_eq_true, if_false, List.nil_append]
    rfl
  unfold Site.receive
  rw [hserver, s.fresh]
  rfl

/-- The server takes the request, and a transfer begins. -/
theorem Asked.server_step (h : Asked s n) (hs : s.Undisturbed) (hstep : n.stepServer = some n') :
    ∃ t, Flowing s.addresses s.job n' t 0 0 0 := by
  have hsound' := h.sound.stepServer hstep
  obtain ⟨x, rest, hx, rfl⟩ := stepServer_cases hstep
  rcases h.waiting with ⟨-, hinbox⟩ | ⟨hwire, hinbox⟩
  · rw [hinbox] at hx
    cases hx
  · rw [hinbox] at hx
    cases hx
    rw [h.site, Setup.receive_request hs] at hsound' ⊢
    have haway : s.site.address s.site.begun ≠ s.addresses.client := by
      rw [s.assigned]
      exact s.addresses.client_ne _
    refine ⟨_, hsound', hs.up, ?_, hs.idleSite, rfl, rfl, ?_, ⟨Nat.le_refl 0, Nat.le_refl 0⟩, ?_, ?_,
      h.read, ⟨rfl, rfl, hs.serverTries⟩, h.clean, ⟨rfl, rfl⟩, Or.inl h.result, Or.inl rfl, rfl, ?_,
      ?_, ?_⟩
    · show n.faults.Idle
      rw [h.faults]
      exact hs.idle
    · intro d hd
      change d ∈ n.wire at hd
      rw [hwire] at hd
      cases hd
    · show pending n.client.queue n.wire _ = _
      rw [h.queue, hwire]
      rfl
    · show pending [] n.wire _ = _
      rw [hwire]
      rfl
    · show n.history.filter _ = _
      rw [h.history]
      exact filter_mails_of_ne (Ne.symm haway) [s.job.request.toPacket]
    · show n.history.filter _ = _
      rw [h.history]
      exact filter_mails [s.job.request.toPacket]
    · intro d hd
      change d ∈ n.history at hd
      rw [h.history, List.mem_singleton] at hd
      rw [hd]
      exact Or.inr rfl

/-- Something can happen at the beginning, and then the client has asked. -/
theorem start_goes (hs : s.Undisturbed) : (∃ n', Orderly s.addresses s.start n') ∧
    ∀ n', Orderly s.addresses s.start n' → Asked s n' := by
  obtain ⟨n₁, hfirst⟩ : ∃ n', s.start.stepClient s.addresses = some n' := by
    apply stepClient_of_ne_wait rfl
    obtain ⟨d, hask, -⟩ := Setup.asks hs
    show Machine.step s.download [] ≠ .wait
    rw [hask]
    simp
  have hnot : ¬ s.start.Quiet := by
    intro hquiet
    unfold stepClient at hfirst
    rw [hquiet.2.1] at hfirst
    cases hfirst
  refine ⟨⟨n₁, .client, trivial, hfirst⟩, ?_⟩
  rintro n' ⟨event, hallows, hact⟩
  cases event with
  | client => exact asked_of_start hs hact
  | request => cases hact
  | transfer index =>
      change s.start.stepTransfer index = some n' at hact
      have hnone : s.start.site.transfers = [] := s.fresh
      simp [stepTransfer, hnone] at hact
  | deliver index => cases hact
  | clientTimer => exact absurd hallows.1 hnot
  | transferTimer index => exact absurd hallows.1 hnot
  | lose index => exact hallows.elim
  | duplicate index => exact hallows.elim
  | damage index bit => exact hallows.elim

/-- The request arrives, and the server takes it. -/
theorem Asked.goes (h : Asked s n) (hs : s.Undisturbed) : (∃ n', Orderly s.addresses n n') ∧
    ∀ n', Orderly s.addresses n n' → (Asked s n' ∧ Nearer n'.toServer n.toServer) ∨
      ∃ t, Flowing s.addresses s.job n' t 0 0 0 := by
  constructor
  · rcases h.waiting with ⟨hwire, -⟩ | ⟨-, hinbox⟩
    · have hact : n.act s.addresses (.deliver 0) =
          some (arrive s.addresses { n with wire := n.wire.eraseIdx 0 } (request s)) := by
        show n.wire[0]?.map _ = _
        rw [hwire]
        rfl
      exact ⟨_, .deliver 0, inOrder_zero, hact⟩
    · have hact : n.act s.addresses .request =
          some { n with inbox := [], site := n.site.receive (request s).arrival } := by
        unfold act stepServer
        rw [hinbox]
      exact ⟨_, .request, trivial, hact⟩
  · have hnot : ¬ (n.Quiet ∧ n.inbox = []) := by
      rintro ⟨hquiet, hinbox⟩
      rcases h.waiting with ⟨hwire, -⟩ | ⟨-, hinbox'⟩
      · rw [hquiet.1] at hwire
        cases hwire
      · rw [hinbox] at hinbox'
        cases hinbox'
    rintro n' ⟨event, hallows, hact⟩
    cases event with
    | client => exact Or.inl (h.client_step hs hact)
    | request => exact Or.inr (h.server_step hs hact)
    | transfer index =>
        change n.stepTransfer index = some n' at hact
        simp [stepTransfer, h.site, s.fresh] at hact
    | deliver index => exact Or.inl (h.deliver hact)
    | clientTimer => exact absurd hallows hnot
    | transferTimer index => exact absurd hallows hnot
    | lose index => exact hallows.elim
    | duplicate index => exact hallows.elim
    | damage index bit => exact hallows.elim

/-! ## The end -/

/-- How far a network is from its end, wherever in its run it is. -/
def Underway (s : Setup) (m : Nat × Nat × Nat × Nat) (n : Network) : Prop :=
  (n = s.start ∧ m = (2, 0, 0, 0)) ∨ (Asked s n ∧ m = n.toServer) ∨
    ∃ t k r q, Flowing s.addresses s.job n t k r q ∧ m = remaining s.job n t k r q

/-- **A file comes through undisturbed.**  Nothing is lost, nothing is overtaken, and a wait is over only
when nothing else can happen.  Then whatever the order of the steps, every run comes to an end after
finitely many: both sides have ended well, the client has the file, and each packet has been sent once and
in order, with the counters and digests that belong to it. -/
theorem round_trip (s : Setup) (hs : s.Undisturbed) :
    Inevitable (Orderly s.addresses) (fun n => ∃ t, Completed s.addresses s.job n t) s.start := by
  refine Inevitable.of_decreasing (Underway s) ?_ _ s.start (Or.inl ⟨rfl, rfl⟩)
  rintro m n (⟨rfl, rfl⟩ | ⟨hasked, rfl⟩ | ⟨t, k, r, q, hflowing, rfl⟩)
  · obtain ⟨hgoes, hnext⟩ := start_goes hs
    exact Or.inr ⟨hgoes, fun n' hstep => Or.inr ⟨n'.toServer,
      nearer_of_numbers (Or.inl (Nat.lt_succ_self 1)), Or.inr (Or.inl ⟨hnext n' hstep, rfl⟩)⟩⟩
  · obtain ⟨hgoes, hnext⟩ := hasked.goes hs
    refine Or.inr ⟨hgoes, fun n' hstep => Or.inr ?_⟩
    rcases hnext n' hstep with ⟨hasked', hnearer⟩ | ⟨t, hflowing⟩
    · exact ⟨_, hnearer, Or.inr (Or.inl ⟨hasked', rfl⟩)⟩
    · exact ⟨remaining s.job n' t 0 0 0, nearer_of_numbers (Or.inl Nat.zero_lt_one),
        Or.inr (Or.inr ⟨t, 0, 0, 0, hflowing, rfl⟩)⟩
  · by_cases hdone : Completed s.addresses s.job n t
    · exact Or.inl ⟨t, hdone⟩
    · refine Or.inr ⟨hflowing.goes hdone, fun n' hstep => Or.inr ?_⟩
      obtain ⟨t', k', r', q', hflowing', hnearer⟩ := hflowing.orderly_step hdone hstep
      exact ⟨_, hnearer, Or.inr (Or.inr ⟨t', k', r', q', hflowing', rfl⟩)⟩

/-- Nothing disturbs the letter. -/
theorem letter_round_trip : Setup.letter.Undisturbed ∧ Inevitable (Orderly Setup.letter.addresses)
    (fun n => ∃ t, Completed Setup.letter.addresses Setup.letter.job n t) Setup.letter.start := by
  have hidle : ∀ entropy, (FaultModel.ofConfig {} entropy).Idle :=
    FaultModel.ofConfig_idle (by decide)
  have hs : Setup.letter.Undisturbed := ⟨rfl, hidle 0, hidle 0, rfl, rfl, by decide, by decide⟩
  exact ⟨hs, round_trip _ hs⟩

end Network

end SelectiveReject.Scenario
