import SelectiveReject.Proofs.Truth
import SelectiveReject.Scenario.Network

/-!
# What a transfer delivers is the file

On a network that loses, repeats, reorders and damages datagrams, with the steps of the machines and their
timers in any order, the client writes the file from its beginning, and nothing else; and neither side
ends well before the client has all of it (`delivered_is_file`).

The invariant is `Sound`: every machine has come as far as the `view` of the network says, and every
datagram, wherever it is, says what this view bears out.
-/

namespace SelectiveReject.Scenario

/-- A client that asks a server for a file, which the server has and which is short enough for packet
numbers of 32 bits.  No transfer is under way yet. -/
structure Setup where
  addresses : Addresses
  config : Config
  fetch : Fetch
  site : Site
  file : Bytes
  /-- The faults that the client adds to what it sends. -/
  faults : FaultModel
  download : Download
  started : Download.start config fetch (.ok addresses.server) = .ok download
  assigned : site.address = addresses.transfer
  offered : site.file fetch.name = .contents file
  short : pieceCount file fetch.parameters.buffer.toNat <
    limit32 - 2 - fetch.parameters.window.toNat
  fresh : site.transfers = []

namespace Setup

variable (s : Setup)

/-- What a download that has started looks like. -/
theorem started_eq : FileRequest.check ⟨s.fetch.parameters, s.fetch.name⟩ = .ok () ∧
    s.download = {
      config := s.config
      fetch := s.fetch
      request := ⟨s.fetch.parameters, s.fetch.name⟩
      server := s.addresses.server
      peer := s.addresses.server
      retry := ⟨0, s.config.maxTries⟩ } := by
  have h := s.started
  unfold Download.start at h
  split at h
  · cases h
  · split at h
    · cases h
    · rename_i request hmake
      obtain ⟨rfl, hcheck⟩ := FileRequest.make_eq_ok hmake
      simp only [Except.map, Except.ok.injEq] at h
      exact ⟨hcheck, h.symm⟩

/-- The request and the file it is for. -/
def job : Job where
  request := ⟨s.fetch.parameters, s.fetch.name⟩
  file := s.file
  valid := s.started_eq.1
  countable := Nat.le_of_lt (Nat.lt_of_lt_of_le s.short (Nat.sub_le _ _))
  short := s.short

/-- The network before anything has happened. -/
def start : Network := .start s.site s.download s.faults

/-- The states that the network can be in. -/
def Reaches (n : Network) : Prop := Network.Reaches s.addresses s.start n

/-- A client that asks for a letter of 900 bytes, in pieces of 400. -/
def letter : Setup where
  addresses := ⟨⟨"client", 0⟩, ⟨"server", 0⟩, Site.transferAddress, by decide,
    by simp [Site.transferAddress], by simp [Site.transferAddress]⟩
  config := {}
  fetch := { name := "letter", parameters := ⟨2, 400⟩ }
  site := .start .up { config := {} } fun _ => .contents (List.replicate 900 65)
  file := List.replicate 900 65
  faults := .ofConfig {}
  download := {
    config := {}
    fetch := { name := "letter", parameters := ⟨2, 400⟩ }
    request := ⟨⟨2, 400⟩, "letter"⟩
    server := ⟨"server", 0⟩
    peer := ⟨"server", 0⟩
    retry := ⟨0, 10⟩ }
  started := rfl
  assigned := rfl
  offered := rfl
  short := by decide +kernel
  fresh := rfl

/-- The first piece is lost, the second is repeated and its copy damaged, and what the client says to it
is lost, too. -/
def letterStalls : List Event :=
  [.client, .client, .deliver 0, .request, .transfer 0, .transfer 0, .transfer 0, .transfer 0,
    .transfer 0, .transfer 0, .transfer 0, .deliver 0, .lose 0, .duplicate 0, .deliver 1, .client,
    .client, .client, .lose 1, .damage 0 60, .deliver 0, .client]

end Setup

namespace Network

/-! ## How far the network has come -/

/-- A number that no transfer has sent a piece of. -/
def horizon (transfers : List Transfer) : Nat :=
  transfers.foldr (fun t n => max t.station.machine.current n) 1

theorem one_le_horizon (transfers : List Transfer) : 1 ≤ horizon transfers := by
  induction transfers with
  | nil => exact Nat.le_refl 1
  | cons t rest ih => exact Nat.le_trans ih (Nat.le_max_right _ _)

theorem current_le_horizon {transfers : List Transfer} {t : Transfer} (h : t ∈ transfers) :
    t.station.machine.current ≤ horizon transfers := by
  induction transfers with
  | nil => cases h
  | cons t' rest ih =>
      rcases List.mem_cons.mp h with rfl | h
      · exact Nat.le_max_left _ _
      · exact Nat.le_trans (ih h) (Nat.le_max_right _ _)

theorem horizon_le {transfers : List Transfer} {bound : Nat} (hone : 1 ≤ bound)
    (h : ∀ t ∈ transfers, t.station.machine.current ≤ bound) : horizon transfers ≤ bound := by
  induction transfers with
  | nil => exact hone
  | cons t rest ih =>
      exact Nat.max_le.mpr
        ⟨h t List.mem_cons_self, ih fun t' ht' => h t' (List.mem_cons_of_mem _ ht')⟩

/-- With a single transfer, nothing has been sent beyond its window. -/
theorem horizon_single {j : Job} {t : Transfer} {sender : Serving} {activity : Activity}
    (hmachine : t.station.machine = .serving sender activity) (hfits : sender.Fits j) :
    horizon [t] = sender.window.current := by
  have hone := hfits.one_le_current
  show max t.station.machine.current 1 = _
  rw [hmachine]
  exact Nat.max_eq_left hone

/-- How far client and transfers have come. -/
def view (a : Addresses) (n : Network) : View where
  client := a.client
  next := n.client.machine.next
  horizon := horizon n.site.transfers
  ended := ∃ t ∈ n.site.transfers, t.station.machine.Ended
  finished := n.client.machine.Finished

/-- Each transfer is still there, and none has gone back. -/
def Extends (transfers transfers' : List Transfer) : Prop :=
  ∀ t ∈ transfers, ∃ t' ∈ transfers', t.station.machine.current ≤ t'.station.machine.current ∧
    (t.station.machine.Ended → t'.station.machine.Ended)

theorem view_le {a : Addresses} {n n' : Network} (hclient : n'.client.machine = n.client.machine)
    (h : Extends n.site.transfers n'.site.transfers) : (n.view a).Le (n'.view a) where
  client := rfl
  next := by
    show n.client.machine.next ≤ n'.client.machine.next
    exact Nat.le_of_eq (by rw [hclient])
  horizon := by
    apply horizon_le (one_le_horizon _)
    intro t ht
    obtain ⟨t', ht', hle, -⟩ := h t ht
    exact Nat.le_trans hle (current_le_horizon ht')
  ended := by
    rintro ⟨t, ht, hended⟩
    obtain ⟨t', ht', -, himp⟩ := h t ht
    exact ⟨t', ht', himp hended⟩
  finished := by
    show n.client.machine.Finished → n'.client.machine.Finished
    rw [hclient]
    exact id

theorem extends_refl (transfers : List Transfer) : Extends transfers transfers :=
  fun t ht => ⟨t, ht, Nat.le_refl _, id⟩

theorem extends_append (transfers more : List Transfer) : Extends transfers (transfers ++ more) :=
  fun t ht => ⟨t, List.mem_append_left _ ht, Nat.le_refl _, id⟩

theorem extends_map {transfers : List Transfer} {f : Transfer → Transfer}
    (h : ∀ t, (f t).station.machine = t.station.machine) : Extends transfers (transfers.map f) := by
  intro t ht
  refine ⟨f t, List.mem_map_of_mem ht, ?_⟩
  rw [h]
  exact ⟨Nat.le_refl _, id⟩

theorem extends_set {transfers : List Transfer} {index : Nat} {t t' : Transfer}
    (ht : transfers[index]? = some t)
    (hle : t.station.machine.current ≤ t'.station.machine.current)
    (hended : t.station.machine.Ended → t'.station.machine.Ended) :
    Extends transfers (transfers.set index t') := by
  obtain ⟨hlt, heq⟩ := List.getElem?_eq_some_iff.mp ht
  intro s hs
  obtain ⟨k, hk⟩ := List.getElem?_of_mem hs
  by_cases hik : index = k
  · subst hik
    rw [ht] at hk
    cases hk
    exact ⟨t', List.mem_set hlt t', hle, hended⟩
  · have hk' : (transfers.set index t')[k]? = some s := by
      rw [List.getElem?_set, if_neg hik]
      exact hk
    exact ⟨s, List.mem_of_getElem? hk', Nat.le_refl _, id⟩

/-! ## The invariant -/

end Network

/-- A transfer of the job that serves the client from an address of its own. -/
structure Transfer.Sound (a : Addresses) (j : Job) (v : View) (t : Transfer) : Prop where
  address : ∃ k, t.address = a.transfer k
  client : t.client = v.client
  upload : t.station.machine.Keeps j v
  ended : ∀ r, t.station.result = some (.ok r) → v.finished
  queue : ∀ x ∈ t.station.queue, x.Honest j v

theorem Transfer.Sound.mono {a : Addresses} {j : Job} {v v' : View} {t : Transfer} (h : t.Sound a j v)
    (hle : v.Le v') : t.Sound a j v' :=
  ⟨h.address, h.client.trans hle.client.symm, h.upload.mono hle,
    fun r hr => hle.finished (h.ended r hr), fun x hx => (h.queue x hx).mono hle⟩

namespace Network

/-- Every machine has come as far as the view says, and every datagram says what it bears out. -/
structure Sound (a : Addresses) (j : Job) (n : Network) : Prop where
  file : n.site.file j.request.name = .contents j.file
  assigned : n.site.address = a.transfer
  client : n.client.machine.Keeps j (n.view a)
  clientEnded : ∀ r, n.client.result = some (.ok r) → n.client.machine.Finished
  queue : ∀ x ∈ n.client.queue, x.Honest j (n.view a)
  transfers : ∀ t ∈ n.site.transfers, t.Sound a j (n.view a)
  inbox : ∀ x ∈ n.inbox, x.Honest j (n.view a)
  wire : ∀ d ∈ n.wire, d.arrival.Honest j (n.view a)

variable {a : Addresses} {j : Job} {n n' : Network}

/-- A transfer has an address of its own. -/
theorem Sound.address_ne (h : n.Sound a j) {t : Transfer} (ht : t ∈ n.site.transfers) :
    t.address ≠ a.client ∧ t.address ≠ a.server := by
  obtain ⟨k, hk⟩ := (h.transfers t ht).address
  rw [hk]
  exact ⟨a.client_ne k, a.server_ne k⟩

/-- No piece has a number that does not fit its word. -/
theorem Sound.horizon_le (h : n.Sound a j) : (n.view a).horizon ≤ j.last + 1 := by
  apply Network.horizon_le (by omega)
  intro t ht
  have hupload := (h.transfers t ht).upload
  match hmachine : t.station.machine with
  | .opening _ _ _ _ => exact Nat.le_add_left 1 j.last
  | .refused _ _ =>
      rw [hmachine] at hupload
      exact hupload.elim
  | .serving s activity =>
      rw [hmachine] at hupload
      exact hupload.fits.reached

/-- Honest datagrams may be sent. -/
theorem Sound.post (h : n.Sound a j) {source : Address} {left : List Departure}
    (hleft : ∀ d ∈ left, Arrival.Honest j (n.view a) ⟨source, d.bytes⟩) :
    (n.post source left).Sound a j where
  file := h.file
  assigned := h.assigned
  client := h.client
  clientEnded := h.clientEnded
  queue := h.queue
  transfers := h.transfers
  inbox := h.inbox
  wire d hd := by
    rcases List.mem_append.mp hd with hd | hd
    · exact h.wire d hd
    · obtain ⟨departure, hdeparture, rfl⟩ := List.mem_map.mp hd
      exact hleft departure hdeparture

/-! ## The steps of the client and the server -/

/-- What the client does next is one of the steps of a download. -/
theorem Sound.client_goes (h : n.Sound a j) :
    Download.Goes j (n.view a).horizon n.client.machine n.client.queue
      (Machine.step n.client.machine n.client.queue) := by
  have hlast := j.last_lt
  have hhorizon := h.horizon_le
  exact Download.step_spec h.client.fits (one_le_horizon _) (by omega)
    (fun p hp => (h.client.first p hp).sound) n.client.queue
    (fun x hx p hp => ((h.queue x hx).honest p hp).sound)

/-- What a step of the client leaves. -/
theorem Sound.client_keeps (h : n.Sound a j) {d : Download} {queue : List Arrival}
    {sent : List Packet}
    (hstep : Machine.step n.client.machine n.client.queue = .next d queue sent) :
    (n.view a).Le (d.seen (n.view a)) ∧ d.Keeps j (d.seen (n.view a)) ∧
      (∀ p ∈ sent, p.Sendable j (d.seen (n.view a)) a.client) ∧ ∀ x ∈ queue, x ∈ n.client.queue := by
  have hlast := j.last_lt
  have hhorizon := h.horizon_le
  have hgoes := h.client_goes
  rw [hstep] at hgoes
  exact hgoes.keeps h.client (one_le_horizon _) (by omega) h.queue

/-- Everything that the client sends fits a datagram. -/
theorem Sound.client_short (h : n.Sound a j) {d : Download} {queue : List Arrival}
    {sent : List Packet}
    (hstep : Machine.step n.client.machine n.client.queue = .next d queue sent) :
    ∀ p ∈ sent, p.payload.length ≤ Packet.maxPayload := by
  obtain ⟨-, -, hsent, -⟩ := h.client_keeps hstep
  exact fun p hp => (hsent p hp).1

theorem Sound.stepClient (h : n.Sound a j) (hstep : n.stepClient a = some n') : n'.Sound a j := by
  unfold Network.stepClient at hstep
  obtain ⟨⟨client, faults, left⟩, hadvance, rfl⟩ := Option.map_eq_some_iff.mp hstep
  have hgoes := h.client_goes
  obtain ⟨-, ⟨result, hstop, rfl, rfl, rfl⟩ | ⟨sent, channel, hnext, -, -, rfl, hfailed⟩⟩ :=
    Station.advance_cases hadvance
  · rw [hstop] at hgoes
    have hnew : Sound a j { n with client := n.client.finish result } := by
      refine ⟨h.file, h.assigned, h.client, ?_, h.queue, h.transfers, h.inbox, h.wire⟩
      intro r hr
      cases result with
      | error e => simp [Station.finish, Except.map] at hr
      | ok result => exact hgoes.finished
    exact hnew.post (fun d hd => by cases hd)
  · obtain ⟨hle, hkeeps, hsent, hsub⟩ := h.client_keeps hnext
    have hfinished : ∀ r, client.result = some (.ok r) → (view a { n with client := client }).finished := by
      intro r hr
      obtain ⟨stop, hstop, -⟩ := hfailed _ hr
      cases hstop
    have hnew : Sound a j { n with client := client, faults := faults } :=
      ⟨h.file, h.assigned, hkeeps, hfinished,
        fun x hx => (h.queue x (hsub x hx)).mono hle, fun t ht => (h.transfers t ht).mono hle,
        fun x hx => (h.inbox x hx).mono hle, fun d hd => (h.wire d hd).mono hle⟩
    exact hnew.post fun d hd => Channel.sendAll_honest hsent hd

theorem Sound.expireClient (h : n.Sound a j) (hended : n.client.ended = false) :
    Sound a j { n with client := n.client.expire } := by
  have hkeeps := h.client.expire
  have hle : (n.view a).Le (view a { n with client := n.client.expire }) :=
    ⟨rfl, Nat.le_of_eq hkeeps.next, Nat.le_refl _, id, hkeeps.finished.mp⟩
  refine ⟨h.file, h.assigned, hkeeps.mono hle hkeeps.next.symm hkeeps.finished.symm, ?_,
    fun x hx => (h.queue x hx).mono hle, fun t ht => (h.transfers t ht).mono hle,
    fun x hx => (h.inbox x hx).mono hle, fun d hd => (h.wire d hd).mono hle⟩
  intro r hr
  have hnone : n.client.result = none := by
    unfold Station.ended at hended
    simpa using hended
  change n.client.result = some (.ok r) at hr
  rw [hnone] at hr
  cases hr

/-- A change of the site in which no transfer goes back and each is sound. -/
theorem Sound.ofSite (h : n.Sound a j) {site : Site} (hfile : site.file = n.site.file)
    (haddress : site.address = n.site.address)
    (hextends : Extends n.site.transfers site.transfers)
    (htransfers : (n.view a).Le (view a { n with site := site }) →
      ∀ t ∈ site.transfers, t.Sound a j (view a { n with site := site })) :
    Sound a j { n with site := site } := by
  have hle : (n.view a).Le (view a { n with site := site }) :=
    @view_le a n { n with site := site } rfl hextends
  refine ⟨?_, haddress.trans h.assigned, h.client.mono hle rfl Iff.rfl, h.clientEnded, fun x hx => (h.queue x hx).mono hle,
    htransfers hle, fun x hx => (h.inbox x hx).mono hle, fun d hd => (h.wire d hd).mono hle⟩
  rw [hfile]
  exact h.file

theorem Sound.receive (h : n.Sound a j) {x : Arrival} (hx : x.Honest j (n.view a)) :
    Sound a j { n with site := n.site.receive x } := by
  unfold Site.receive
  split
  · exact h.ofSite rfl rfl (extends_refl _) fun _ => h.transfers
  · rename_i server request hreceive
    have hrequest : Server.request x = .ok (some request) := by
      unfold Server.receive at hreceive
      split at hreceive
      · split at hreceive <;> cases hreceive
        assumption
      · cases hreceive
    obtain ⟨p, hp, hflag, hpayload⟩ := Server.flag_of_request hrequest
    have htrue := hx.honest p hp
    rw [Packet.Honest, hflag] at htrue
    obtain ⟨hsame, hsource⟩ := htrue
    rw [hsame, FileRequest.ofPayload_toPayload j.valid, Except.ok.injEq] at hpayload
    subst hpayload
    refine h.ofSite rfl rfl (extends_append _ _) fun hle t ht => ?_
    rcases List.mem_append.mp ht with ht | ht
    · exact (h.transfers t ht).mono hle
    · rw [List.mem_singleton] at ht
      subst ht
      exact ⟨⟨n.site.begun, congrFun h.assigned _⟩, hsource, ⟨rfl, hsource, h.file⟩, by simp [Station.start],
        by simp [Station.start]⟩

theorem Sound.stepServer (h : n.Sound a j) (hstep : n.stepServer = some n') : n'.Sound a j := by
  obtain ⟨datagram, rest, hinbox, rfl⟩ := stepServer_cases hstep
  have hdatagram : datagram.Honest j (n.view a) := h.inbox datagram (by simp [hinbox])
  have hrest : Sound a j { n with inbox := rest } :=
    ⟨h.file, h.assigned, h.client, h.clientEnded, h.queue, h.transfers,
      fun x hx => h.inbox x (by simp [hinbox, hx]), h.wire⟩
  exact hrest.receive hdatagram

/-! ## The steps of a transfer -/

theorem Sound.replace (h : n.Sound a j) {index : Nat} {t : Transfer}
    (ht : n.site.transfers[index]? = some t) {station : Station Upload} {faults : FaultModel}
    {left : List Departure}
    (hcurrent : t.station.machine.current ≤ station.machine.current)
    (hended : t.station.machine.Ended → station.machine.Ended)
    (hsound : ∀ v', (n.view a).Le v' → station.machine.current ≤ v'.horizon →
      (station.machine.Ended → v'.ended) → Transfer.Sound a j v' { t with station := station } ∧
        ∀ d ∈ left, Arrival.Honest j v' ⟨t.address, d.bytes⟩) :
    (n.replace index t (station, faults, left)).Sound a j := by
  obtain ⟨hlt, -⟩ := List.getElem?_eq_some_iff.mp ht
  have hmem : ({ t with station := station } : Transfer) ∈
      n.site.transfers.set index { t with station := station } := List.mem_set hlt _
  have hextends : Extends n.site.transfers
      (n.site.transfers.set index { t with station := station }) :=
    extends_set ht hcurrent hended
  let site : Site := { n.site with
    server := if station.returned then n.site.server.close t.client else n.site.server
    faults := faults
    transfers := n.site.transfers.set index { t with station := station } }
  have hle : (n.view a).Le (view a { n with site := site }) :=
    @view_le a n { n with site := site } rfl hextends
  obtain ⟨hnow, hleft⟩ := hsound _ hle (current_le_horizon hmem) fun h => ⟨_, hmem, h⟩
  have hnew : Sound a j { n with site := site } := by
    refine h.ofSite rfl rfl hextends fun _ t' ht' => ?_
    rcases List.mem_or_eq_of_mem_set ht' with ht' | rfl
    · exact (h.transfers t' ht').mono hle
    · exact hnow
  exact hnew.post hleft

theorem Sound.stepTransfer (h : n.Sound a j) {index : Nat}
    (hstep : n.stepTransfer index = some n') : n'.Sound a j := by
  obtain ⟨t, ⟨station, faults, left⟩, ht, hadvance, rfl⟩ := stepTransfer_cases hstep
  have hone := h.client.next ▸ Download.one_le_next h.client.fits
  have hsound := h.transfers t (List.mem_of_getElem? ht)
  obtain ⟨-, ⟨result, hstop, rfl, rfl, rfl⟩ | ⟨sent, channel, hnext, -, -, rfl, hfailed⟩⟩ :=
    Station.advance_cases hadvance
  · refine h.replace ht (Nat.le_refl _) id fun v' hle _ _ => ⟨?_, fun d hd => by cases hd⟩
    have hsound' := hsound.mono hle
    refine ⟨hsound'.address, hsound'.client, hsound'.upload, ?_, hsound'.queue⟩
    intro r hr
    cases result with
    | error e => simp [Station.finish, Except.map] at hr
    | ok result => exact hle.finished (Upload.finished_of_stop hsound.upload hstop)
  · obtain ⟨hcurrent, hended, hkeeps⟩ := @Upload.step_keeps j (n.view a) _ _ _ _ _ t.address
      hsound.upload hone hsound.queue hnext
    refine h.replace ht hcurrent hended fun v' hle hcurrent' hended' => ?_
    obtain ⟨hupload, hsent, hsub⟩ := hkeeps v' hle hcurrent' hended'
    have hsound' := hsound.mono hle
    refine ⟨⟨hsound'.address, hsound'.client, hupload, fun r hr => ?_,
      fun x hx => hsound'.queue x (hsub x hx)⟩, fun d hd => Channel.sendAll_honest hsent hd⟩
    obtain ⟨stop, hstop, -⟩ := hfailed _ hr
    cases hstop

theorem Sound.expireTransfer (h : n.Sound a j) {index : Nat}
    (hstep : n.expireTransfer index = some n') : n'.Sound a j := by
  obtain ⟨t, ht, -, rfl⟩ := expireTransfer_cases hstep
  have hsound := h.transfers t (List.mem_of_getElem? ht)
  obtain ⟨hcurrent, hstill⟩ := Upload.expire_same t.station.machine
  refine h.replace ht (Nat.le_of_eq hcurrent.symm) hstill
    fun v' hle _ _ => ⟨?_, fun d hd => by cases hd⟩
  have hsound' := hsound.mono hle
  exact ⟨hsound'.address, hsound'.client, hsound'.upload.expire, hsound'.ended, hsound'.queue⟩

/-! ## What the network does -/

theorem Sound.ofWire (h : n.Sound a j) {wire : List Delivery}
    (hwire : ∀ d ∈ wire, d.arrival.Honest j (n.view a)) : Sound a j { n with wire := wire } :=
  ⟨h.file, h.assigned, h.client, h.clientEnded, h.queue, h.transfers, h.inbox, hwire⟩

theorem Sound.arrive (h : n.Sound a j) {d : Delivery} (hd : d.arrival.Honest j (n.view a)) :
    (n.arrive a d).Sound a j := by
  unfold Network.arrive
  split
  · refine ⟨h.file, h.assigned, h.client, h.clientEnded, ?_, h.transfers, h.inbox, h.wire⟩
    intro x hx
    rcases List.mem_append.mp hx with hx | hx
    · exact h.queue x hx
    · rw [List.mem_singleton] at hx
      subst hx
      exact hd
  · split
    · refine ⟨h.file, h.assigned, h.client, h.clientEnded, h.queue, h.transfers, ?_, h.wire⟩
      intro x hx
      rcases List.mem_append.mp hx with hx | hx
      · exact h.inbox x hx
      · rw [List.mem_singleton] at hx
        subst hx
        exact hd
    · refine h.ofSite rfl rfl (extends_map fun t => by split <;> rfl) fun hle t ht => ?_
      obtain ⟨t₀, ht₀, rfl⟩ := List.mem_map.mp ht
      have hsound := (h.transfers t₀ ht₀).mono hle
      split
      · refine ⟨hsound.address, hsound.client, hsound.upload, hsound.ended, ?_⟩
        intro x hx
        rcases List.mem_append.mp hx with hx | hx
        · exact hsound.queue x hx
        · rw [List.mem_singleton] at hx
          subst hx
          exact hd.mono hle
      · exact hsound

theorem Sound.damage (h : n.Sound a j) {index bit : Nat} (hact : n.damage index bit = some n') :
    n'.Sound a j := by
  obtain ⟨source, target, bytes, hd, hintact, hbit, rfl⟩ := damage_cases hact
  have hshort := (h.wire _ (List.mem_of_getElem? hd)).short
  refine h.ofWire fun d' hd' => ?_
  rcases List.mem_or_eq_of_mem_set hd' with hd' | rfl
  · exact h.wire d' hd'
  · exact Arrival.honest_of_flipBit hshort hintact hbit

/-- Every event keeps the network sound. -/
theorem Sound.act (h : n.Sound a j) {event : Event} (hact : n.act a event = some n') :
    n'.Sound a j := by
  have hat : ∀ {index : Nat} {d : Delivery}, n.wire[index]? = some d →
      d.arrival.Honest j (n.view a) := fun hd => h.wire _ (List.mem_of_getElem? hd)
  cases event with
  | client => exact h.stepClient hact
  | clientTimer =>
      unfold Network.act at hact
      cases hended : n.client.ended with
      | true => simp [hended] at hact
      | false =>
          simp only [hended, Bool.false_eq_true, if_false, Option.some.injEq] at hact
          subst hact
          exact h.expireClient hended
  | request => exact h.stepServer hact
  | transfer index => exact h.stepTransfer hact
  | transferTimer index => exact h.expireTransfer hact
  | deliver index =>
      obtain ⟨d, hd, rfl⟩ := Option.map_eq_some_iff.mp hact
      exact (h.ofWire fun d' hd' => h.wire d' (List.mem_of_mem_eraseIdx hd')).arrive (hat hd)
  | lose index =>
      obtain ⟨d, hd, rfl⟩ := Option.map_eq_some_iff.mp hact
      exact h.ofWire fun d' hd' => h.wire d' (List.mem_of_mem_eraseIdx hd')
  | duplicate index =>
      obtain ⟨d, hd, rfl⟩ := Option.map_eq_some_iff.mp hact
      refine h.ofWire fun d' hd' => ?_
      rcases List.mem_append.mp hd' with hd' | hd'
      · exact h.wire d' hd'
      · rw [List.mem_singleton] at hd'
        subst hd'
        exact hat hd
  | damage index bit => exact h.damage hact

/-- A network in which nothing has happened is sound. -/
theorem sound_start (s : Setup) : s.start.Sound s.addresses s.job := by
  have hdownload := s.started_eq.2
  have hstage : s.download.stage = .asking := by rw [hdownload]
  have hsession : s.download.session = none := by rw [Download.session, hstage]
  have hnot : ¬ s.download.Finished := by
    rintro ⟨s', hs'⟩
    rw [hstage] at hs'
    cases hs'
  refine ⟨s.offered, s.assigned, ⟨⟨?_, ?_, ?_⟩, rfl, Iff.rfl, fun h => absurd h hnot, ?_⟩, ?_, ?_, ?_, ?_, ?_⟩
  · show s.download.request = _
    rw [hdownload]
    rfl
  · intro s' hs'
    change s.download.session = some s' at hs'
    rw [hsession] at hs'
    cases hs'
  · intro s' hs'
    exact absurd ⟨s', hs'⟩ hnot
  · intro p hp
    change s.download.stage = _ at hp
    rw [hstage] at hp
    cases hp
  · intro r hr
    cases hr
  · intro x hx
    cases hx
  · intro t ht
    change t ∈ s.site.transfers at ht
    rw [s.fresh] at ht
    cases ht
  · intro x hx
    cases hx
  · intro d hd
    cases hd

/-- Every state that can be reached is sound. -/
theorem sound_of_reaches {s : Setup} (h : s.Reaches n) : n.Sound s.addresses s.job := by
  induction h with
  | refl => exact sound_start s
  | step event _ hact ih => exact ih.act hact

/-! ## What the client has -/

theorem Sound.written_eq (h : n.Sound a j) :
    n.client.machine.written = j.upTo (n.client.machine.next - 1) := by
  cases hsession : n.client.machine.session with
  | none =>
      rw [Download.next_of_no_session hsession, Nat.sub_self, Consignment.upTo_zero, Download.written,
        hsession]
      rfl
  | some s =>
      rw [Download.next_of_session hsession, Download.written, hsession]
      exact (h.client.fits.session s hsession).bytes

/-- A client that has confirmed the end has the file. -/
theorem Sound.written_of_finished (h : n.Sound a j) (hfinished : n.client.machine.Finished) :
    n.client.machine.written = j.file ∧ n.client.machine.file = some j.file := by
  have hwritten := h.written_eq
  obtain ⟨s, hs⟩ := hfinished
  have hsession : n.client.machine.session = some s := by rw [Download.session, hs]
  rw [Download.next_of_session hsession, h.client.fits.complete s hs, Nat.add_sub_cancel,
    Consignment.upTo_last] at hwritten
  refine ⟨hwritten, ?_⟩
  rw [Download.written, hsession] at hwritten
  rw [Download.file, hs]
  exact congrArg some hwritten

/-- **What is delivered is the file.**  Whatever the network and the timers do, the client has written
a beginning of the file; when it ends well, its file is the whole file; and when a transfer ends well,
the client has written all of it by then.

`Network.damage` turns one bit over, and only in a datagram that is intact: a second bit could give back
a sum that is right, and then nothing tells the packet from one that was sent. -/
theorem delivered_is_file (s : Setup) (h : s.Reaches n) :
    n.client.machine.written <+: s.file ∧
    (∀ r, n.client.result = some (.ok r) → n.client.machine.file = some s.file) ∧
    ∀ t ∈ n.site.transfers, ∀ r, t.station.result = some (.ok r) →
      n.client.machine.written = s.file := by
  have hsound := sound_of_reaches h
  refine ⟨?_, ?_, ?_⟩
  · rw [hsound.written_eq]
    exact s.job.upTo_prefix _
  · intro r hr
    exact (hsound.written_of_finished (hsound.clientEnded r hr)).2
  · intro t ht r hr
    exact (hsound.written_of_finished ((hsound.transfers t ht).ended r hr)).1

/-- After a wait that is over for the transfer, the letter arrives. -/
theorem letter_delivered : ∃ n r, Setup.letter.Reaches n ∧ n.client.result = some (.ok r) ∧
    n.client.machine.file = some Setup.letter.file := by
  let rest : List Event := [.transferTimer 0, .transfer 0, .deliver 0, .transfer 0, .client,
    .deliver 0, .transfer 0, .transfer 0, .transfer 0, .transfer 0, .deliver 0, .transfer 0,
    .transfer 0, .deliver 0, .transfer 0, .client, .deliver 0, .transfer 0, .transfer 0,
    .transfer 0, .client, .deliver 0, .transfer 0, .transfer 0, .transfer 0, .client]
  have hends : (Setup.letter.start.run Setup.letter.addresses (Setup.letterStalls ++ rest)).any
      (fun n => n.client.result.any (·.isOk)) = true := by decide +kernel
  obtain ⟨n, hrun, hok⟩ := (Option.any_eq_true _ _).mp hends
  obtain ⟨result, hresult, hgood⟩ := (Option.any_eq_true _ _).mp hok
  have hreaches : Setup.letter.Reaches n := reaches_of_run .refl hrun
  cases result with
  | error e => cases hgood
  | ok r => exact ⟨n, r, hreaches, hresult, (delivered_is_file _ hreaches).2.1 r hresult⟩

end Network

end SelectiveReject.Scenario
