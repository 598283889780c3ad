import SelectiveReject.Proofs.Lists
import SelectiveReject.Proofs.Requests
import SelectiveReject.Proofs.UploadEndings
import SelectiveReject.Scenario.Exposure

/-!
# The registry lists the transfers under way

Whoever sends what to whom, and in whatever order the transfers move, the registry lists the clients of
the transfers that have not returned, each once:

```
active clients = clients of the transfers that have not returned, without repetition    (Registered)
```

So a datagram at the listening address starts a transfer exactly when it holds a request of a client that
has none, and an entry goes exactly when its transfer returns.

A transfer that has not returned runs or was broken off, and its entry would then stay for ever.  Within
`Bounds` no transfer is ever broken off (`Intact`), so that the registry lists those that run.
-/

namespace SelectiveReject

namespace Server

/-- The clients that have a transfer, in the order in which they asked. -/
def clients (s : Server) : List Address := s.active.map (·.1)

/-- A datagram that holds a request. -/
def Asks (x : Arrival) (r : FileRequest) : Prop :=
  ∃ p, x.packet = .ok p ∧ p.flag = .fname ∧ FileRequest.ofPayload p.payload = .ok r

variable {s : Server} {x : Arrival} {r : FileRequest} {client : Address}

/-- A new server has its settings, which are valid, and no transfers. -/
theorem make_eq_ok {config : Config} (h : make config = .ok s) :
    s = { config := config } ∧ config.check = .ok () := by
  unfold make at h
  cases hcheck : config.check with
  | error e =>
      rw [hcheck] at h
      cases h
  | ok _ =>
      rw [hcheck] at h
      cases h
      exact ⟨rfl, rfl⟩

theorem request_eq_iff : request x = .ok (some r) ↔ Asks x r := by
  constructor
  · exact flag_of_request
  · rintro ⟨p, hp, hflag, hr⟩
    simp only [request, hp, hflag, if_true, hr, Except.map]

theorem serves_eq_true_iff : s.serves client = true ↔ client ∈ s.clients := by
  simp [serves, clients]

theorem receive_granted (hasks : Asks x r) (hfree : x.source ∉ s.clients) :
    s.receive x = ({ s with active := s.active ++ [(x.source, r.name)] }, some r) := by
  have hserves : s.serves x.source = false := by
    rw [← Bool.not_eq_true, serves_eq_true_iff]
    exact hfree
  simp only [receive, request_eq_iff.mpr hasks, hserves, Bool.false_eq_true, if_false]

theorem receive_passed (h : ¬ ∃ r, Asks x r ∧ x.source ∉ s.clients) : s.receive x = (s, none) := by
  unfold receive
  split
  · rename_i r hrequest
    have hserves : s.serves x.source = true := by
      rw [serves_eq_true_iff]
      exact Classical.not_not.mp fun hfree => h ⟨r, request_eq_iff.mp hrequest, hfree⟩
    rw [if_pos hserves]
  · rfl

theorem clients_close (client : Address) :
    (s.close client).clients = s.clients.filter (· ≠ client) := by
  simp only [clients, close, List.filter_map]
  rfl

theorem not_mem_clients_close (client : Address) : client ∉ (s.close client).clients := by
  simp [clients_close]

end Server

namespace Scenario

namespace Transfer

/-- The transfer has not ended. -/
def running (t : Transfer) : Bool := !t.station.ended

/-- The transfer runs, or it was broken off. -/
def unreturned (t : Transfer) : Bool := !t.station.returned

variable {t : Transfer}

theorem running_eq_true_iff : t.running = true ↔ t.station.result = none := by
  simp [running, Station.ended]

theorem unreturned_eq_true_iff : t.unreturned = true ↔
    t.station.result = none ∨ ∃ a, t.station.result = some (.error (.abort a)) := by
  unfold unreturned Station.returned
  split <;> simp_all

theorem unreturned_of_running (h : t.running = true) : t.unreturned = true :=
  unreturned_eq_true_iff.mpr (Or.inl (running_eq_true_iff.mp h))

end Transfer

/-- What becomes of a running station: it takes a step, or its wait is over. -/
inductive Station.Moves (link : Link) (s : Station Upload) (faults : FaultModel) :
    Station Upload → FaultModel → Prop
  | advance {s' : Station Upload} {faults' : FaultModel} {left : List Departure}
      (h : s.advance link faults = some (s', faults', left)) : Moves link s faults s' faults'
  | expire (h : s.ended = false) : Moves link s faults s.expire faults

theorem Station.Moves.running {link : Link} {t : Transfer} {faults faults' : FaultModel}
    {s' : Station Upload} (h : t.station.Moves link faults s' faults') : t.running = true := by
  cases h with
  | advance h => simp [Transfer.running, (Station.advance_cases h).1]
  | expire h => simp [Transfer.running, h]

namespace Site

/-- The transfers that run, or were broken off. -/
def unreturned (s : Site) : List Transfer := s.transfers.filter (·.unreturned)

/-- No transfer has the address of another host. -/
theorem transferAddress_ne {a : Address} (n : Nat) (h : a.host ≠ "transfer") : transferAddress n ≠ a :=
  fun hsame => h (congrArg Address.host hsame).symm

/-- The registry lists the clients of the transfers that have not returned, each once. -/
structure Registered (s : Site) : Prop where
  clients : s.server.clients = s.unreturned.map (·.client)
  once : s.server.clients.Nodup

/-- The transfer that a request starts. -/
def granted (s : Site) (x : Arrival) (r : FileRequest) : Transfer :=
  ⟨s.address s.begun, x.source,
    .start (.start s.server.config r x.source (s.file r.name))⟩

variable {s : Site} {x : Arrival} {r : FileRequest}

theorem receive_granted (hasks : Server.Asks x r) (hfree : x.source ∉ s.server.clients) :
    s.receive x = { s with
      server := { s.server with active := s.server.active ++ [(x.source, r.name)] }
      begun := s.begun + 1
      transfers := s.transfers ++ [s.granted x r] } := by
  simp only [receive, Server.receive_granted hasks hfree]
  rfl

theorem receive_passed (h : ¬ ∃ r, Server.Asks x r ∧ x.source ∉ s.server.clients) :
    s.receive x = s := by
  simp only [receive, Server.receive_passed h]

theorem Registered.receive (h : s.Registered) (x : Arrival) : (s.receive x).Registered := by
  by_cases hstarts : ∃ r, Server.Asks x r ∧ x.source ∉ s.server.clients
  · obtain ⟨r, hasks, hfree⟩ := hstarts
    have hclients : (s.receive x).server.clients = s.server.clients ++ [x.source] := by
      rw [receive_granted hasks hfree, Server.clients, List.map_append]
      rfl
    have hunreturned : (s.receive x).unreturned = s.unreturned ++ [s.granted x r] := by
      rw [receive_granted hasks hfree, unreturned, List.filter_append]
      rfl
    constructor
    · rw [hclients, hunreturned, List.map_append, h.clients]
      rfl
    · rw [hclients]
      refine List.nodup_append.mpr ⟨h.once, List.nodup_cons.mpr ⟨List.not_mem_nil, .nil⟩, ?_⟩
      intro client hclient other hother heq
      rw [List.mem_singleton] at hother
      exact hfree (hother ▸ heq ▸ hclient)
  · rw [receive_passed hstarts]
    exact h

/-- Only what changes who has returned, or whom a transfer serves, concerns the registry. -/
theorem Registered.map {f : Transfer → Transfer} (h : s.Registered)
    (hclient : ∀ t, (f t).client = t.client) (hsame : ∀ t, (f t).unreturned = t.unreturned) :
    Registered { s with transfers := s.transfers.map f } := by
  have hunreturned : unreturned { s with transfers := s.transfers.map f } = s.unreturned.map f := by
    simp only [unreturned, List.filter_map]
    congr 2
    exact funext hsame
  refine ⟨?_, h.once⟩
  rw [hunreturned, List.map_map, h.clients]
  exact List.map_congr_left fun t _ => (hclient t).symm

theorem Registered.forward (h : s.Registered) (address : Address) (x : Arrival) :
    (s.forward address x).Registered := by
  apply h.map
  · intro t
    split <;> rfl
  · intro t
    split <;> rfl

/-- The site after a transfer has moved. -/
def moved (s : Site) (index : Nat) (t : Transfer) (station : Station Upload) (faults : FaultModel) :
    Site :=
  { s with
    server := if station.returned then s.server.close t.client else s.server
    faults := faults
    transfers := s.transfers.set index { t with station := station } }

theorem Registered.moved (h : s.Registered) {index : Nat} {t : Transfer}
    (ht : s.transfers[index]? = some t) (hkept : t.unreturned = true) (station : Station Upload)
    (faults : FaultModel) : (s.moved index t station faults).Registered := by
  obtain ⟨hlt, hget⟩ := List.getElem?_eq_some_iff.mp ht
  obtain ⟨before, after, hsplit, -, hset⟩ :=
    @List.exists_of_set _ _ ({ t with station := station } : Transfer) _ hlt
  rw [hget] at hsplit
  have hclients := h.clients
  have honce := h.once
  have hall : s.unreturned = before.filter (·.unreturned) ++ t :: after.filter (·.unreturned) := by
    rw [unreturned, hsplit, List.filter_append, List.filter_cons, if_pos hkept]
  rw [hall] at hclients
  cases hreturned : station.returned with
  | false =>
      have hnow : (s.moved index t station faults).unreturned =
          before.filter (·.unreturned) ++
            { t with station := station } :: after.filter (·.unreturned) := by
        rw [unreturned, Site.moved, hset, List.filter_append, List.filter_cons, if_pos]
        simp [Transfer.unreturned, hreturned]
      refine ⟨?_, ?_⟩
      · rw [hnow, Site.moved, hreturned]
        simpa using hclients
      · rw [Site.moved, hreturned]
        exact honce
  | true =>
      have hnow : (s.moved index t station faults).unreturned =
          before.filter (·.unreturned) ++ after.filter (·.unreturned) := by
        rw [unreturned, Site.moved, hset, List.filter_append, List.filter_cons, if_neg]
        simp [Transfer.unreturned, hreturned]
      have hkeys : (s.moved index t station faults).server.clients =
          s.server.clients.filter (· ≠ t.client) := by
        rw [Site.moved, hreturned, if_pos rfl, Server.clients_close]
      refine ⟨?_, ?_⟩
      · rw [hkeys, hnow, hclients, List.map_append, List.map_append, List.map_cons]
        rw [hclients, List.map_append, List.map_cons] at honce
        exact filter_ne_of_nodup honce
      · rw [hkeys]
        exact honce.filter _

/-- What becomes of a site next: it takes a datagram at the listening address, hands one to a transfer,
or one of its transfers moves. -/
inductive Goes (s : Site) : Site → Prop
  | same : Goes s s
  | receive (x : Arrival) : Goes s (s.receive x)
  | forward (address : Address) (x : Arrival) : Goes s (s.forward address x)
  | moved (index : Nat) (t : Transfer) (station : Station Upload) (faults : FaultModel)
      (ht : s.transfers[index]? = some t) (hmoves : t.station.Moves s.link s.faults station faults) :
      Goes s (s.moved index t station faults)

variable {s' : Site}

theorem Goes.registered (hg : s.Goes s') (h : s.Registered) : s'.Registered := by
  cases hg with
  | same => exact h
  | receive x => exact h.receive x
  | forward address x => exact h.forward address x
  | moved index t station faults ht hmoves =>
      exact h.moved ht (Transfer.unreturned_of_running hmoves.running) station faults

/-- A transfer that has not returned stays where it is and serves whom it serves; it returns only where
the registry forgets its client. -/
theorem Goes.transfer (hg : s.Goes s') {index : Nat} {t : Transfer}
    (ht : s.transfers[index]? = some t) (hkept : t.unreturned = true) :
    ∃ t', s'.transfers[index]? = some t' ∧ t'.client = t.client ∧
      (t'.unreturned = false → t.client ∉ s'.server.clients) := by
  have hstays : ∀ {p : Prop}, t.unreturned = false → p := fun hreturned => by
    rw [hkept] at hreturned
    cases hreturned
  cases hg with
  | same => exact ⟨t, ht, rfl, hstays⟩
  | receive x =>
      by_cases hstarts : ∃ r, Server.Asks x r ∧ x.source ∉ s.server.clients
      · obtain ⟨r, hasks, hfree⟩ := hstarts
        refine ⟨t, ?_, rfl, hstays⟩
        rw [receive_granted hasks hfree]
        exact List.getElem?_append_left (List.getElem?_eq_some_iff.mp ht).1 ▸ ht
      · rw [receive_passed hstarts]
        exact ⟨t, ht, rfl, hstays⟩
  | forward address x =>
      refine ⟨_, by rw [Site.forward, List.getElem?_map, ht]; rfl, ?_, ?_⟩
      · dsimp only
        split <;> rfl
      · dsimp only
        split <;> exact hstays
  | moved index' t' station faults ht' hmoves =>
      obtain ⟨hlt, -⟩ := List.getElem?_eq_some_iff.mp ht
      by_cases hsame : index' = index
      · subst hsame
        rw [ht] at ht'
        cases ht'
        refine ⟨{ t with station := station }, ?_, rfl, fun hreturned => ?_⟩
        · rw [Site.moved, List.getElem?_set_self hlt]
        · have hstation : station.returned = true := by
            simpa [Transfer.unreturned] using hreturned
          rw [Site.moved, hstation, if_pos rfl]
          exact Server.not_mem_clients_close _
      · refine ⟨t, ?_, rfl, hstays⟩
        rw [Site.moved, List.getElem?_set_ne hsame]
        exact ht

end Site

namespace Network

variable {a : Addresses} {n n' : Network}

theorem arrive_goes (a : Addresses) (n : Network) (d : Delivery) :
    n.site.Goes (n.arrive a d).site := by
  unfold arrive
  split
  · exact .same
  · split
    · exact .same
    · exact .forward _ _

/-- Nothing else becomes of a site among strangers. -/
theorem meet_goes {occasion : Occasion} (h : n.meet a occasion = some n') :
    n.site.Goes n'.site := by
  cases occasion with
  | stranger d =>
      cases h
      exact arrive_goes a n d
  | event event =>
      change n.act a event = some n' at h
      cases event with
      | client =>
          obtain ⟨moved, -, rfl⟩ := Option.map_eq_some_iff.mp h
          exact .same
      | clientTimer =>
          change (if n.client.ended then none
            else some { n with client := n.client.expire }) = some n' at h
          split at h <;> cases h
          exact .same
      | request =>
          obtain ⟨x, rest, -, rfl⟩ := stepServer_cases h
          exact .receive x
      | transfer index =>
          obtain ⟨t, ⟨station, faults, left⟩, ht, hadvance, rfl⟩ := stepTransfer_cases h
          exact .moved index t station faults ht (.advance hadvance)
      | transferTimer index =>
          obtain ⟨t, ht, hended, rfl⟩ := expireTransfer_cases h
          exact .moved index t t.station.expire n.site.faults ht (.expire hended)
      | deliver index =>
          obtain ⟨d, -, rfl⟩ := Option.map_eq_some_iff.mp h
          exact arrive_goes a { n with wire := n.wire.eraseIdx index } d
      | lose index | duplicate index =>
          obtain ⟨d, -, rfl⟩ := Option.map_eq_some_iff.mp h
          exact .same
      | damage index bit =>
          obtain ⟨source, target, bytes, -, -, -, rfl⟩ := damage_cases h
          exact .same

theorem registered_of_exposed {start : Network} (hstart : start.site.Registered)
    (h : Exposed a start n) : n.site.Registered := by
  induction h with
  | refl => exact hstart
  | step occasion _ hmeet ih => exact (meet_goes hmeet).registered ih

/-- The registry and the transfers that it is to keep agree, now and whatever happens next. -/
structure Accounted (a : Addresses) (n : Network) (keeps : Transfer → Bool) : Prop where
  /-- The clients in the registry are those of the transfers that it keeps. -/
  listed : n.site.server.clients = (n.site.transfers.filter keeps).map (·.client)
  /-- No client has two of them. -/
  once : n.site.server.clients.Nodup
  counted : n.site.server.activeTransfers = (n.site.transfers.filter keeps).length
  /-- A request starts a transfer if its client has none. -/
  starts : ∀ x rest, n.inbox = x :: rest → ∀ r, Server.Asks x r → x.source ∉ n.site.server.clients →
    ∃ n', n.act a .request = some n' ∧ n'.wire = n.wire ∧ n'.history = n.history ∧
      n'.site.transfers = n.site.transfers ++ [n.site.granted x r] ∧
      n'.site.server.clients = n.site.server.clients ++ [x.source]
  /-- Any other datagram at the listening address changes nothing and is not answered. -/
  passes : ∀ x rest, n.inbox = x :: rest →
    (¬ ∃ r, Server.Asks x r ∧ x.source ∉ n.site.server.clients) →
    n.act a .request = some { n with inbox := rest }
  /-- The entry of a transfer that is kept goes exactly when the transfer is not kept any more. -/
  forgets : ∀ occasion n', n.meet a occasion = some n' → ∀ (index : Nat) (t : Transfer),
    n.site.transfers[index]? = some t → keeps t = true →
    ∃ t' : Transfer, n'.site.transfers[index]? = some t' ∧ t'.client = t.client ∧
      (t.client ∈ n'.site.server.clients ↔ keeps t' = true)

theorem accounted_of_registered (h : n.site.Registered) : n.Accounted a Transfer.unreturned := by
  constructor
  · exact h.clients
  · exact h.once
  · have hlength := congrArg List.length h.clients
    rwa [Server.clients, List.length_map, List.length_map] at hlength
  · intro x rest hinbox r hasks hfree
    refine ⟨{ n with inbox := rest, site := n.site.receive x }, ?_, rfl, rfl, ?_, ?_⟩
    · show n.stepServer = _
      rw [stepServer, hinbox]
    · show (n.site.receive x).transfers = _
      rw [Site.receive_granted hasks hfree]
    · show (n.site.receive x).server.clients = _
      rw [Site.receive_granted hasks hfree]
      exact List.map_append
  · intro x rest hinbox hnone
    show n.stepServer = _
    rw [stepServer, hinbox]
    simp only [Site.receive_passed hnone]
  · intro occasion n' hmeet index t ht hkept
    have hgoes := meet_goes hmeet
    obtain ⟨t', ht', hclient, hreturns⟩ := hgoes.transfer ht hkept
    refine ⟨t', ht', hclient, fun hlisted => ?_, fun hkept' => ?_⟩
    · cases hkept' : t'.unreturned with
      | true => rfl
      | false => exact absurd hlisted (hreturns hkept')
    · rw [(hgoes.registered h).clients, ← hclient]
      exact List.mem_map_of_mem (List.mem_filter.mpr ⟨List.mem_of_getElem? ht', hkept'⟩)

/-! ## No transfer is broken off -/

end Network

/-- What keeps a server from breaking a transfer off: a count of tries and numbers of packets that fit
their words, and faults that can be drawn. -/
structure Bounds (config : Config) (file : String → Source) (faults : FaultModel) : Prop where
  tries : config.maxTries < limit32 - 1
  rate : faults.rate = config.rate
  short : ∀ r : FileRequest, r.check = .ok () → ∀ bytes, file r.name = .contents bytes →
    pieceCount bytes r.parameters.buffer.toNat ≤ limit32 - 2

/-- A transfer that answers a request as it should, and was not broken off. -/
structure Transfer.Intact (config : Config) (file : String → Source) (t : Transfer) : Prop where
  sound : ∃ r : FileRequest, r.check = .ok () ∧
    Upload.Sound config r t.client (file r.name) t.station.machine
  whole : ∀ stop, t.station.result = some (.error (.abort stop)) → False

/-- A transfer that has not returned runs, since it was not broken off. -/
theorem Transfer.Intact.unreturned_eq {config : Config} {file : String → Source} {t : Transfer}
    (h : t.Intact config file) : t.unreturned = t.running := by
  rw [Bool.eq_iff_iff, unreturned_eq_true_iff, running_eq_true_iff]
  exact or_iff_left fun ⟨stop, hstop⟩ => h.whole stop hstop

namespace Site

/-- A site whose transfers are intact, and whose faults can be drawn. -/
structure Intact (config : Config) (file : String → Source) (s : Site) : Prop where
  config_eq : s.server.config = config
  file_eq : s.file = file
  proper : s.faults.Proper
  transfers : ∀ t ∈ s.transfers, t.Intact config file

variable {config : Config} {file : String → Source} {faults₀ : FaultModel} {s s' : Site}

/-- A step of an intact transfer leaves it intact: it ends only in its ways, or because the network refuses
what it sends. -/
theorem moves_intact (hbounds : Bounds config file faults₀) {t : Transfer} (ht : t.Intact config file)
    {link : Link} {faults faults' : FaultModel} (hproper : faults.Proper) {station : Station Upload}
    (hmoves : t.station.Moves link faults station faults') :
    ({ t with station := station } : Transfer).Intact config file ∧ faults'.Proper := by
  obtain ⟨r, hcheck, hsound⟩ := ht.sound
  cases hmoves with
  | expire hended => exact ⟨⟨⟨r, hcheck, hsound.expire⟩, ht.whole⟩, hproper⟩
  | advance hadvance =>
      have hshort := hbounds.short r hcheck
      have hlimit : config.maxTries + 1 < limit32 := by
        have := hbounds.tries
        omega
      obtain ⟨-, ⟨result, hstop, rfl, rfl, -⟩ | ⟨sent, channel, hstep, -, rfl, -, hfailed⟩⟩ :=
        Station.advance_cases hadvance
      · have hends := hsound.stop hlimit hcheck hshort hstop
        refine ⟨⟨⟨r, hcheck, hsound⟩, fun stop hresult => ?_⟩, hproper⟩
        generalize file r.name = source at hends
        cases hends <;> cases hresult
      · obtain ⟨hsound', hfits⟩ := hsound.step hcheck hshort hstep
        obtain ⟨hproper', hrefused⟩ := Channel.sendAll_proper hproper hfits
        refine ⟨⟨⟨r, hcheck, hsound'⟩, fun stop hresult => ?_⟩, hproper'⟩
        obtain ⟨stop', hstop', hsend⟩ := hfailed _ hresult
        obtain ⟨text, -, rfl⟩ := hrefused stop' hsend
        cases hstop'

theorem Goes.intact (hg : s.Goes s') (hbounds : Bounds config file faults₀) (h : s.Intact config file) :
    s'.Intact config file := by
  cases hg with
  | same => exact h
  | receive x =>
      by_cases hstarts : ∃ r, Server.Asks x r ∧ x.source ∉ s.server.clients
      · obtain ⟨r, hasks, hfree⟩ := hstarts
        rw [receive_granted hasks hfree]
        obtain ⟨p, -, -, hr⟩ := hasks
        refine ⟨h.config_eq, h.file_eq, h.proper, List.forall_mem_append.mpr ⟨h.transfers, ?_⟩⟩
        refine List.forall_mem_singleton.mpr ⟨⟨r, FileRequest.check_of_ofPayload hr, ?_⟩, nofun⟩
        rw [← h.config_eq, ← h.file_eq]
        exact .opening _
      · rw [receive_passed hstarts]
        exact h
  | forward address x =>
      refine ⟨h.config_eq, h.file_eq, h.proper, fun t ht => ?_⟩
      obtain ⟨t₀, ht₀, rfl⟩ := List.mem_map.mp ht
      have hintact := h.transfers t₀ ht₀
      split
      · exact ⟨hintact.sound, hintact.whole⟩
      · exact hintact
  | moved index t station faults ht hmoves =>
      obtain ⟨hintact, hproper⟩ :=
        moves_intact hbounds (h.transfers t (List.mem_of_getElem? ht)) h.proper hmoves
      refine ⟨?_, h.file_eq, hproper, fun t' ht' => ?_⟩
      · show (if station.returned then s.server.close t.client else s.server).config = config
        split <;> exact h.config_eq
      · rcases List.mem_or_eq_of_mem_set ht' with ht' | rfl
        · exact h.transfers t' ht'
        · exact hintact

end Site

namespace Network

variable {a : Addresses} {n n' : Network} {config : Config} {file : String → Source} {faults₀ : FaultModel}

theorem intact_of_exposed {start : Network} (hbounds : Bounds config file faults₀)
    (hstart : start.site.Intact config file) (h : Exposed a start n) : n.site.Intact config file := by
  induction h with
  | refl => exact hstart
  | step occasion _ hmeet ih => exact (meet_goes hmeet).intact hbounds ih

/-- With intact transfers, those that the registry keeps are those that run. -/
theorem Accounted.running (h : n.Accounted a Transfer.unreturned) (hintact : n.site.Intact config file)
    (hnext : ∀ occasion n', n.meet a occasion = some n' → n'.site.Intact config file) :
    n.Accounted a Transfer.running := by
  have hkept : n.site.transfers.filter Transfer.unreturned = n.site.transfers.filter Transfer.running :=
    List.filter_congr fun t ht => (hintact.transfers t ht).unreturned_eq
  refine ⟨hkept ▸ h.listed, h.once, hkept ▸ h.counted, h.starts, h.passes, ?_⟩
  intro occasion n' hmeet index t ht hrunning
  obtain ⟨t', ht', hclient, hiff⟩ :=
    h.forgets occasion n' hmeet index t ht (Transfer.unreturned_of_running hrunning)
  have hintact' := (hnext occasion n' hmeet).transfers t' (List.mem_of_getElem? ht')
  exact ⟨t', ht', hclient, hintact'.unreturned_eq ▸ hiff⟩

/-- **The registry is exact**, whatever strangers send and in whatever order the transfers move: it keeps
the transfers that have not returned, and these are the running ones, since within bounds none is broken
off. -/
theorem registry_exact {server : Server} (hmake : Server.make config = .ok server) {link : Link}
    {serverFaults : FaultModel} {address : Nat → Address} {download : Download} {faults : FaultModel}
    (h : Exposed a (start (.start link server file serverFaults address) download faults) n) :
    n.Accounted a Transfer.unreturned ∧
      (Bounds config file serverFaults → n.Accounted a Transfer.running) := by
  obtain ⟨hserver, hcheck⟩ := Server.make_eq_ok hmake
  have haccounted : n.Accounted a Transfer.unreturned := by
    refine accounted_of_registered (registered_of_exposed ?_ h)
    rw [hserver]
    exact ⟨rfl, .nil⟩
  refine ⟨haccounted, fun hbounds => ?_⟩
  have hstart : (Site.start link server file serverFaults address).Intact config file := by
    refine ⟨?_, rfl, FaultModel.proper_of_check hcheck hbounds.rate,
      fun t ht => absurd ht List.not_mem_nil⟩
    rw [hserver]
    rfl
  exact haccounted.running (intact_of_exposed hbounds hstart h) fun occasion n' hmeet =>
    intact_of_exposed hbounds hstart (.step occasion h hmeet)

/-- A small site with a client that does not take part. -/
def fourClientsAddresses : Addresses :=
  ⟨⟨"watcher", 0⟩, ⟨"listener", 0⟩, Site.transferAddress, by decide,
    fun n => Site.transferAddress_ne n (by decide), fun n => Site.transferAddress_ne n (by decide)⟩

/-- A file of one byte, one that cannot be read, and no others. -/
def fourClientsFile (name : String) : Source :=
  if name = "note" then .contents [65] else if name = "folder" then .unreadable else .missing

def fourClientsStart (server : Server) : Network :=
  start (.start .up server fourClientsFile) {
    config := {}
    fetch := { name := "note", parameters := ⟨2, 400⟩ }
    request := ⟨⟨2, 400⟩, "note"⟩
    server := ⟨"listener", 0⟩
    peer := ⟨"listener", 0⟩
    retry := ⟨0, 1⟩ } (.ofConfig {})

/-- Four clients ask for files.  The first gets its file of one byte and confirms the end, the file of the
second is missing, that of the third cannot be read, and the fourth is never heard of again; then the
first asks once more. -/
def fourClients : List Occasion :=
  let ask (client name : String) : List Occasion :=
    [.stranger ⟨⟨client, 0⟩, ⟨"listener", 0⟩, (FileRequest.toPacket ⟨⟨2, 400⟩, name⟩).frame⟩,
      .event .request]
  let steps (index count : Nat) : List Occasion :=
    List.replicate count (.event (.transfer index))
  ask "first" "note" ++ ask "first" "note" ++ ask "second" "lost" ++ ask "third" "folder" ++
    ask "fourth" "note" ++ steps 0 5 ++ steps 1 2 ++ steps 2 2 ++ steps 3 5 ++
    [.event (.transferTimer 3)] ++ steps 3 2 ++
    [.stranger ⟨⟨"first", 0⟩, Site.transferAddress 0, (Packet.control .eofAck 2).frame⟩] ++
    steps 0 3 ++ ask "first" "note"

/-- Why the transfers of a network have ended; one that runs has no entry, one that ended well no reason. -/
def endings (n : Network) : List (Option (Option Stop)) :=
  n.site.transfers.map fun t => t.station.result.map fun
    | .ok _ => none
    | .error reason => some reason

/-- Transfers end in every way, and the registry keeps account of it. -/
theorem four_clients_accounted : ∃ server n, Server.make { maxTries := 1 } = .ok server ∧
    Bounds { maxTries := 1 } fourClientsFile (.ofConfig { maxTries := 1 }) ∧
    Exposed fourClientsAddresses (fourClientsStart server) n ∧
    n.endings = [some none, some (some (.error (.fileNotFound "lost"))),
      some (some (.error unreadableError)), some (some (.error (.peerSilent 1))), none] ∧
    n.site.server.clients = [⟨"first", 0⟩] ∧ n.Accounted fourClientsAddresses Transfer.running := by
  let server : Server := { config := { maxTries := 1 } }
  have hmake : Server.make { maxTries := 1 } = .ok server := rfl
  have hbounds : Bounds { maxTries := 1 } fourClientsFile (.ofConfig { maxTries := 1 }) := by
    refine ⟨by decide, rfl, fun r hcheck bytes hbytes => ?_⟩
    unfold fourClientsFile at hbytes
    split at hbytes
    · cases hbytes
      have hone : pieceCount [65] r.parameters.buffer.toNat ≤ 1 := by
        rw [pieceCount, List.length_singleton, Nat.add_sub_cancel_left]
        exact Nat.div_le_of_le_mul (Nat.le_of_eq (Nat.mul_one _).symm)
      exact Nat.le_trans hone (by decide)
    · split at hbytes <;> cases hbytes
  have hends : ((fourClientsStart server).meetAll fourClientsAddresses fourClients).any
      (fun n => decide (n.endings = [some none, some (some (.error (.fileNotFound "lost"))),
        some (some (.error unreadableError)), some (some (.error (.peerSilent 1))), none] ∧
        n.site.server.clients = [⟨"first", 0⟩])) = true := by
    decide +kernel
  obtain ⟨n, hrun, hgood⟩ := (Option.any_eq_true _ _).mp hends
  obtain ⟨hendings, hclients⟩ := of_decide_eq_true hgood
  have hexposed := exposed_of_meetAll .refl hrun
  exact ⟨server, n, hmake, hbounds, hexposed, hendings, hclients, (registry_exact hmake hexposed).2 hbounds⟩

end Network

end Scenario

end SelectiveReject
