import SelectiveReject.Proofs.Sites
import SelectiveReject.Scenario.Visit

/-!
# Transfers at a server are isolated

What a client gets from a server without faults does not depend on what other clients send, nor on when
they send it: it is what the client gets when nobody else sends anything.  For that no address may belong
to two transfers, one after the other: what is sent to the first would reach the second.

Both runs come to the same `Outlook` of the client: the time, how many transfers it has heard of, and the
transfer that it has, with its number.  An outlook goes on by itself (`Orderly.act`):

```
(v.act action) seen by the client = (v seen by the client).act action
```

and of an action it sees only what the client itself sends (`play_only`).
-/

namespace SelectiveReject.Scenario

/-- Of what is sent, only what one client sends; the waits stay. -/
def ClientAction.only (client : Address) : ClientAction → ClientAction
  | .send letters => .send (letters.filter fun letter => letter.client = client)
  | .wait milliseconds => .wait milliseconds

/-- What one client got. -/
def Glimpse.to (g : Glimpse) (client : Address) : List Receipt :=
  g.receipts.filter fun receipt => receipt.client = client

/-- What one client has to do with a visit. -/
structure Outlook where
  now : Nat
  /-- How many transfers have sent to the client. -/
  heard : Nat
  /-- The transfer of the client and where it stands among those that the client has heard of; it comes
  after them until it has sent. -/
  running : Option (Nat × Station Upload)

namespace Outlook

/-- The client sends a datagram to the listening address: it starts a transfer if the client has none. -/
def receive (h : Host) (o : Outlook) (x : Arrival) : Outlook :=
  match o.running, Server.request x with
  | none, .ok (some r) =>
      let upload := Upload.start h.config r x.source (h.file r.name)
      { o with running := some (o.heard, .start upload) }
  | _, _ => o

/-- The client sends a datagram to a transfer: it arrives if it is the one that the client has. -/
def forward (o : Outlook) (n : Nat) (x : Arrival) : Outlook :=
  { o with running := o.running.map fun (index, station) =>
      (index, if index = n ∧ n < o.heard then station.enqueue [x] else station) }

def post (h : Host) (o : Outlook) (letter : Letter) : Outlook :=
  match letter.transfer with
  | none => o.receive h ⟨letter.client, letter.bytes⟩
  | some 0 => o
  | some (n + 1) => o.forward n ⟨letter.client, letter.bytes⟩

/-- The transfer of the client has its fate, and the client gets what it sends. -/
def meet (client : Address) (o : Outlook) (now : Nat) (f : Station Upload → Fate) :
    Outlook × List Receipt :=
  match o.running with
  | none => ({ o with now := now }, [])
  | some (index, station) =>
      let fate := f station
      (⟨now, if fate.left.isEmpty then o.heard else max o.heard (index + 1),
        fate.station.map fun station => (index, station)⟩,
        fate.left.map fun d => ⟨client, index + 1, d.bytes⟩)

def act (h : Host) (client : Address) (o : Outlook) : ClientAction → Outlook × List Receipt
  | .send letters =>
      let o := (letters.filter fun letter => letter.client = client).foldl (post h) o
      o.meet client o.now (h.turn o.now)
  | .wait milliseconds =>
      o.meet client (o.now + milliseconds) (h.lapse (o.now + milliseconds))

def play (h : Host) (client : Address) (o : Outlook) : List ClientAction → List (List Receipt)
  | [] => []
  | action :: rest =>
      let (o, got) := o.act h client action
      got :: o.play h client rest

/-- Of a script, an outlook sees only what the client sends. -/
theorem play_only (h : Host) (client : Address) (script : List ClientAction) : ∀ o : Outlook,
    o.play h client (script.map (·.only client)) = o.play h client script := by
  induction script with
  | nil => exact fun o => rfl
  | cons action rest ih =>
      intro o
      have hact : o.act h client (action.only client) = o.act h client action := by
        cases action with
        | send letters =>
            simp only [ClientAction.only, act, List.filter_filter, Bool.and_self]
        | wait milliseconds => rfl
      rw [List.map_cons, play, play, hact]
      simp only [ih]

end Outlook

namespace Visit

/-- A list of addresses after a datagram from one of them: a new one goes to the end. -/
def noted (known : List Address) (address : Address) : List Address :=
  if known.contains address then known else known ++ [address]

section
variable {known : List Address} {address : Address}

theorem noted_of_mem (h : address ∈ known) : noted known address = known :=
  if_pos (List.contains_iff_mem.mpr h)

theorem noted_of_not_mem (h : address ∉ known) : noted known address = known ++ [address] :=
  if_neg (mt List.contains_iff_mem.mp h)

theorem mem_noted (known : List Address) (address : Address) : address ∈ noted known address := by
  by_cases h : address ∈ known
  · rw [noted_of_mem h]
    exact h
  · rw [noted_of_not_mem h]
    exact List.mem_append_right _ (List.mem_singleton_self _)

theorem idxOf_noted (known : List Address) (address : Address) :
    (noted known address).idxOf address = known.idxOf address := by
  by_cases h : address ∈ known
  · rw [noted_of_mem h]
  · rw [noted_of_not_mem h, List.idxOf_append, if_neg h, List.idxOf_cons_self, List.idxOf_eq_length h,
      Nat.zero_add]

theorem length_noted (known : List Address) (address : Address) :
    (noted known address).length = max known.length (known.idxOf address + 1) := by
  by_cases h : address ∈ known
  · have := List.idxOf_lt_length_iff.mpr h
    rw [noted_of_mem h]
    omega
  · rw [noted_of_not_mem h, List.length_append, List.idxOf_eq_length h, List.length_singleton]
    omega

theorem nodup_noted (hnodup : known.Nodup) (address : Address) : (noted known address).Nodup := by
  by_cases h : address ∈ known
  · rw [noted_of_mem h]
    exact hnodup
  · rw [noted_of_not_mem h]
    refine List.nodup_append.mpr ⟨hnodup, List.nodup_cons.mpr ⟨nofun, .nil⟩, ?_⟩
    intro a ha b hb hsame
    rw [hsame, List.mem_singleton.mp hb] at ha
    exact h ha

/-- A client's n-th address is this one just when this one stands there. -/
theorem getElem?_eq_some_iff_idxOf (hnodup : known.Nodup) {n : Nat} :
    known[n]? = some address ↔ known.idxOf address = n ∧ n < known.length := by
  rw [List.getElem?_eq_some_iff]
  constructor
  · rintro ⟨hn, rfl⟩
    exact ⟨hnodup.idxOf_getElem n hn, hn⟩
  · rintro ⟨rfl, hn⟩
    exact ⟨hn, List.getElem_idxOf hn⟩

end

/-- What one client has to do with a visit. -/
def outlook (v : Visit) (client : Address) : Outlook where
  now := v.site.now
  heard := (v.addresses client).length
  running := (v.site.transferOf client).map fun t => ((v.addresses client).idxOf t.address, t.station)

/-- A visit to an orderly site, whose clients know each of their transfers once. -/
structure Orderly (owner : Nat → Address) (v : Visit) : Prop where
  site : v.site.Orderly owner
  known : ∀ p ∈ v.known, ∃ n < v.site.begun, p.2 = v.site.host.address n ∧ p.1 = owner n
  once : ∀ client, (v.addresses client).Nodup

variable {owner : Nat → Address} {v : Visit} {letter : Letter} {client address : Address}
  {f : Station Upload → Fate} {s' : Site} {left : List Delivery}

theorem mem_addresses : address ∈ v.addresses client ↔ (client, address) ∈ v.known := by
  simp [addresses]

/-- The transfer at an address that a client knows is the client's own. -/
theorem Orderly.client_of_known (h : v.Orderly owner) (hknown : address ∈ v.addresses client)
    {t : Transfer} (ht : t ∈ v.site.transfers) (haddress : t.address = address) :
    t.client = client := by
  obtain ⟨m, -, hm, howner⟩ := h.known _ (mem_addresses.mp hknown)
  obtain ⟨n, -, hn, hclient⟩ := h.site.owned t ht
  have hmn : n = m := h.site.fresh (hn.symm.trans (haddress.trans hm))
  rw [hclient, hmn]
  exact howner.symm

/-! ### What a client sends -/

theorem post_same (v : Visit) (letter : Letter) :
    (v.post letter).known = v.known ∧ (v.post letter).site.host = v.site.host ∧
      (v.post letter).site.now = v.site.now := by
  unfold post
  dsimp only
  split
  · obtain ⟨hhost, hnow, -⟩ := v.site.receive_same ⟨letter.client, letter.bytes⟩
    exact ⟨rfl, hhost, hnow⟩
  · exact ⟨rfl, rfl, rfl⟩
  · split <;> exact ⟨rfl, rfl, rfl⟩

theorem Orderly.post (h : v.Orderly owner) (letter : Letter) :
    ∃ owner', (v.post letter).Orderly owner' := by
  unfold Visit.post
  dsimp only
  split
  · obtain ⟨owner', hsite, hsame⟩ := h.site.receive ⟨letter.client, letter.bytes⟩
    obtain ⟨hhost, -, hbegun⟩ := v.site.receive_same ⟨letter.client, letter.bytes⟩
    refine ⟨owner', hsite, fun p hp => ?_, h.once⟩
    obtain ⟨n, hn, haddress, howner⟩ := h.known p hp
    exact ⟨n, Nat.lt_of_lt_of_le hn hbegun, hhost ▸ haddress, howner.trans (hsame n hn).symm⟩
  · exact ⟨owner, h⟩
  · split
    · exact ⟨owner, h.site.forward _ _, h.known, h.once⟩
    · exact ⟨owner, h⟩

/-- What another client sends does not change the outlook of a client. -/
theorem Orderly.post_outlook_of_ne (h : v.Orderly owner) (hne : letter.client ≠ client) :
    (v.post letter).outlook client = v.outlook client := by
  obtain ⟨hknown, -, hnow⟩ := post_same v letter
  have haddresses : (v.post letter).addresses client = v.addresses client := by
    rw [addresses, hknown, addresses]
  have hof : (v.post letter).site.transferOf client = v.site.transferOf client := by
    unfold Visit.post
    dsimp only
    split
    · exact Site.transferOf_receive_of_ne hne
    · rfl
    · split
      · rename_i address hget
        rw [Site.transferOf_forward]
        cases hof : v.site.transferOf client with
        | none => rfl
        | some t =>
            obtain ⟨ht, hclient⟩ := Site.transferOf_mem hof
            have helsewhere : t.address ≠ address := fun haddress => hne
              ((h.client_of_known (List.mem_of_getElem? hget) ht haddress).symm.trans hclient)
            rw [Option.map_some, Site.addressed, if_neg helsewhere]
      · rfl
  rw [outlook, outlook, haddresses, hnow, hof]

theorem Orderly.receive_outlook (h : v.Orderly owner) (x : Arrival) :
    outlook { v with site := v.site.receive x } x.source =
      (v.outlook x.source).receive v.site.host x := by
  have hfree : v.site.transferOf x.source = none ↔ x.source ∉ v.site.server.clients :=
    h.site.transferOf_eq_none_iff
  rcases v.site.receive_cases x with ⟨r, hasks, hgranted, heq⟩ | ⟨hpassed, heq⟩
  · -- the address of the new transfer is one that no client knows
    have hnew : v.site.host.address v.site.begun ∉ v.addresses x.source := by
      intro hmem
      obtain ⟨n, hn, hsame, -⟩ := h.known _ (mem_addresses.mp hmem)
      exact Nat.ne_of_gt hn (h.site.fresh hsame)
    have hnone := hfree.mpr hgranted
    have hrunning : (v.outlook x.source).running = none := by
      rw [outlook, hnone]
      rfl
    have hof : ({ v.site with transfers := v.site.transfers ++ [v.site.granted x r] } : Site).transferOf
        x.source = some (v.site.granted x r) := by
      rw [Site.transferOf_append, hnone, Option.none_or]
      exact if_pos rfl
    rw [heq, Outlook.receive, hrunning, Server.request_eq_iff.mpr hasks]
    show Outlook.mk _ _ (Option.map _ (({ v.site with
      transfers := v.site.transfers ++ [v.site.granted x r] } : Site).transferOf x.source)) = _
    rw [hof, Option.map_some]
    show Outlook.mk _ _ (some ((v.addresses x.source).idxOf (v.site.host.address v.site.begun), _)) = _
    rw [List.idxOf_eq_length hnew]
    rfl
  · rw [heq]
    unfold Outlook.receive
    split
    · rename_i r hnone hrequest
      have hnone' : v.site.transferOf x.source = none := by
        simpa [outlook] using hnone
      exact absurd ⟨r, Server.request_eq_iff.mp hrequest, hfree.mp hnone'⟩ hpassed
    · rfl

theorem Orderly.forward_outlook (h : v.Orderly owner) {n : Nat} {x : Arrival}
    (hget : (v.addresses x.source)[n]? = some address) :
    outlook { v with site := v.site.forward address x } x.source =
      (v.outlook x.source).forward n x := by
  have hrunning : ∀ t : Transfer,
      ((v.addresses x.source).idxOf (Site.addressed address x t).address,
        (Site.addressed address x t).station) =
      ((v.addresses x.source).idxOf t.address,
        if (v.addresses x.source).idxOf t.address = n ∧ n < (v.addresses x.source).length then
          t.station.enqueue [x] else t.station) := by
    intro t
    have hthere : (v.addresses x.source).idxOf t.address = n ∧ n < (v.addresses x.source).length ↔
        t.address = address := by
      rw [← getElem?_eq_some_iff_idxOf (h.once x.source), hget, Option.some.injEq]
      exact eq_comm
    unfold Site.addressed
    by_cases haddress : t.address = address
    · rw [if_pos haddress, if_pos (hthere.mpr haddress)]
    · rw [if_neg haddress, if_neg (mt hthere.mp haddress)]
  unfold outlook Outlook.forward
  rw [Site.transferOf_forward]
  cases v.site.transferOf x.source with
  | none => rfl
  | some t => exact congrArg (Outlook.mk _ _ ∘ some) (hrunning t)

/-- A client that does not know an address sends nothing there. -/
theorem forward_outlook_of_unknown {n : Nat} (hget : (v.addresses client)[n]? = none) (x : Arrival) :
    (v.outlook client).forward n x = v.outlook client := by
  have hn : ¬ n < (v.addresses client).length := Nat.not_lt.mpr (List.getElem?_eq_none_iff.mp hget)
  unfold outlook Outlook.forward
  cases v.site.transferOf client with
  | none => rfl
  | some t => simp [hn]

/-- What a client sends makes of its outlook what it would make of it alone. -/
theorem Orderly.post_outlook (h : v.Orderly owner) (letter : Letter) :
    (v.post letter).outlook letter.client = (v.outlook letter.client).post v.site.host letter := by
  unfold Visit.post Outlook.post
  match letter.transfer with
  | none => exact h.receive_outlook ⟨letter.client, letter.bytes⟩
  | some 0 => rfl
  | some (n + 1) =>
      dsimp only
      split
      · rename_i hget
        exact h.forward_outlook hget
      · rename_i hget
        exact (forward_outlook_of_unknown hget _).symm

/-- Of what all send, each client's own outlook sees its own. -/
theorem Orderly.post_all (letters : List Letter) : ∀ {v : Visit} {owner : Nat → Address},
    v.Orderly owner → ∃ owner', (letters.foldl Visit.post v).Orderly owner' ∧
      (letters.foldl Visit.post v).site.host = v.site.host ∧
      ∀ client, (letters.foldl Visit.post v).outlook client =
        (letters.filter fun letter => letter.client = client).foldl (Outlook.post v.site.host)
          (v.outlook client) := by
  induction letters with
  | nil => exact fun h => ⟨_, h, rfl, fun client => rfl⟩
  | cons letter rest ih =>
      intro v owner h
      obtain ⟨owner', h'⟩ := h.post letter
      obtain ⟨-, hhost, -⟩ := post_same v letter
      obtain ⟨owner'', hall, hhost', houtlook⟩ := ih h'
      refine ⟨owner'', hall, hhost'.trans hhost, fun client => ?_⟩
      rw [List.foldl_cons, houtlook, hhost, List.filter_cons]
      by_cases hclient : letter.client = client
      · rw [if_pos (decide_eq_true hclient), List.foldl_cons, ← hclient, h.post_outlook]
      · rw [if_neg (by simpa using hclient), h.post_outlook_of_ne hclient]

/-! ### What a client gets -/

theorem addresses_append (v : Visit) (client' address : Address) :
    addresses { v with known := v.known ++ [(client', address)] } client =
      if client' = client then v.addresses client ++ [address] else v.addresses client := by
  unfold addresses
  rw [List.filter_append, List.map_append, List.filter_cons]
  by_cases hclient : client' = client
  · rw [if_pos (decide_eq_true hclient), if_pos hclient]
    rfl
  · rw [if_neg (by simpa using hclient), if_neg hclient]
    exact List.append_nil _

/-- What a datagram that arrives at a client changes, and as what the client gets it. -/
theorem receipt_spec (v : Visit) (d : Delivery) :
    (v.receipt d).1.site = v.site ∧
      (∀ p ∈ (v.receipt d).1.known, p ∈ v.known ∨ p = (d.departure.target, d.source)) ∧
      (∀ client, (v.receipt d).1.addresses client =
        if d.departure.target = client then noted (v.addresses client) d.source
        else v.addresses client) ∧
      (v.receipt d).2 = ⟨d.departure.target,
        (v.addresses d.departure.target).idxOf d.source + 1, d.departure.bytes⟩ := by
  have haddresses : ∀ client, (v.receipt d).1.addresses client =
      if d.departure.target = client then noted (v.addresses client) d.source
      else v.addresses client := by
    intro client
    unfold receipt noted
    dsimp only
    split
    · rename_i hknown
      split
      · rename_i hclient
        rw [← hclient, if_pos hknown]
      · rfl
    · rename_i hnew
      rw [addresses_append]
      split
      · rename_i hclient
        rw [← hclient, if_neg hnew]
      · rfl
  refine ⟨?_, ?_, haddresses, ?_⟩
  · unfold receipt
    dsimp only
    split <;> rfl
  · unfold receipt
    dsimp only
    split
    · exact fun p hp => Or.inl hp
    · exact fun p hp => (List.mem_append.mp hp).imp_right List.mem_singleton.mp
  · have hnumber : ((v.receipt d).1.addresses d.departure.target).idxOf d.source =
        (v.addresses d.departure.target).idxOf d.source := by
      rw [haddresses, if_pos rfl, idxOf_noted]
    exact congrArg (fun n => Receipt.mk d.departure.target (n + 1) d.departure.bytes) hnumber

theorem receipts_site (left : List Delivery) : ∀ v : Visit, (v.receipts left).1.site = v.site := by
  induction left with
  | nil => exact fun v => rfl
  | cons d rest ih => exact fun v => (ih _).trans (receipt_spec v d).1

/-- Only transfers that have sent to a client become known to it. -/
theorem receipts_known (left : List Delivery) : ∀ (v : Visit), ∀ p ∈ (v.receipts left).1.known,
    p ∈ v.known ∨ ∃ d ∈ left, p = (d.departure.target, d.source) := by
  induction left with
  | nil => exact fun v p hp => Or.inl hp
  | cons d rest ih =>
      intro v p hp
      rcases ih _ p hp with hp | ⟨d', hd', hp⟩
      · exact ((receipt_spec v d).2.1 p hp).imp_right fun hp => ⟨d, List.mem_cons_self, hp⟩
      · exact Or.inr ⟨d', List.mem_cons_of_mem _ hd', hp⟩

/-- What a client gets when all that is for it comes from one address. -/
theorem receipts_of_source (client address : Address) (left : List Delivery) : ∀ v : Visit,
    (∀ d ∈ left.filter (fun d => d.departure.target = client), d.source = address) →
    (v.receipts left).1.addresses client =
        (if (left.filter fun d => d.departure.target = client).isEmpty then v.addresses client
        else noted (v.addresses client) address) ∧
      (v.receipts left).2.filter (fun receipt => receipt.client = client) =
        (left.filter fun d => d.departure.target = client).map fun d =>
          ⟨client, (v.addresses client).idxOf address + 1, d.departure.bytes⟩ := by
  induction left with
  | nil => exact fun v _ => ⟨rfl, rfl⟩
  | cons d rest ih =>
      intro v hsource
      obtain ⟨-, -, haddresses, hgot⟩ := receipt_spec v d
      have hreceipts : v.receipts (d :: rest) = (((v.receipt d).1.receipts rest).1,
        (v.receipt d).2 :: ((v.receipt d).1.receipts rest).2) := rfl
      rw [hreceipts]
      by_cases htarget : d.departure.target = client
      · have hcons : (d :: rest).filter (fun d => d.departure.target = client) =
            d :: rest.filter fun d => d.departure.target = client := by
          rw [List.filter_cons, if_pos (decide_eq_true htarget)]
        rw [hcons] at hsource ⊢
        have hfirst := hsource d List.mem_cons_self
        have hnoted : (v.receipt d).1.addresses client = noted (v.addresses client) address := by
          rw [haddresses, if_pos htarget, hfirst]
        obtain ⟨ihaddresses, ihgot⟩ := ih (v.receipt d).1 fun d' hd' =>
          hsource d' (List.mem_cons_of_mem _ hd')
        rw [hnoted, noted_of_mem (mem_noted _ _), ite_self] at ihaddresses
        rw [hnoted, idxOf_noted] at ihgot
        refine ⟨ihaddresses, ?_⟩
        show List.filter _ ((v.receipt d).2 :: _) = _
        rw [hgot, List.filter_cons, if_pos (decide_eq_true htarget), ihgot, List.map_cons, htarget,
          hfirst]
      · have hcons : (d :: rest).filter (fun d => d.departure.target = client) =
            rest.filter fun d => d.departure.target = client := by
          rw [List.filter_cons, if_neg (by simpa using htarget)]
        rw [hcons] at hsource ⊢
        have hsame : (v.receipt d).1.addresses client = v.addresses client := by
          rw [haddresses, if_neg htarget]
        obtain ⟨ihaddresses, ihgot⟩ := ih (v.receipt d).1 hsource
        rw [hsame] at ihaddresses ihgot
        refine ⟨ihaddresses, ?_⟩
        show List.filter _ ((v.receipt d).2 :: _) = _
        rw [hgot, List.filter_cons, if_neg (by simpa using htarget), ihgot]

/-- A client without a transfer gets nothing. -/
theorem receipts_of_none (hran : v.site.Ran f s' left) (hof : v.site.transferOf client = none) :
    (receipts { v with site := s' } left).1.addresses client = v.addresses client ∧
      (receipts { v with site := s' } left).2.filter (fun receipt => receipt.client = client) = [] := by
  have hnothing : left.filter (fun d => d.departure.target = client) = [] := by
    rw [hran.sent, hof]
    rfl
  have hreceipts := receipts_of_source client client left { v with site := s' } (by
    rw [hnothing]
    nofun)
  rw [hnothing] at hreceipts
  exact hreceipts

/-- A client gets what its transfer has sent. -/
theorem receipts_of_some (hran : v.site.Ran f s' left) {t : Transfer}
    (hof : v.site.transferOf client = some t) :
    (receipts { v with site := s' } left).1.addresses client =
        (if (f t.station).left.isEmpty then v.addresses client
        else noted (v.addresses client) t.address) ∧
      (receipts { v with site := s' } left).2.filter (fun receipt => receipt.client = client) =
        (f t.station).left.map fun d =>
          ⟨client, (v.addresses client).idxOf t.address + 1, d.bytes⟩ := by
  have hown : left.filter (fun d => d.departure.target = client) = t.sent f := by
    rw [hran.sent, hof]
    rfl
  have hreceipts := receipts_of_source client t.address left { v with site := s' } (by
    rw [hown]
    intro d hd
    obtain ⟨departure, -, rfl⟩ := List.mem_map.mp hd
    rfl)
  rw [hown, Transfer.sent, List.isEmpty_map, List.map_map] at hreceipts
  exact hreceipts

/-- Each client's outlook meets the fate of its own transfer. -/
theorem Orderly.meet_outlook (h : v.Orderly owner) (hran : v.site.Ran f s' left) (client : Address) :
    ((receipts { v with site := s' } left).1.outlook client,
      (receipts { v with site := s' } left).2.filter fun receipt => receipt.client = client) =
      (v.outlook client).meet client s'.now f := by
  have hsite : (receipts { v with site := s' } left).1.site = s' := receipts_site left _
  rw [outlook, hsite, hran.transferOf h.site client, Outlook.meet, outlook]
  cases hof : v.site.transferOf client with
  | none =>
      obtain ⟨haddresses, hgot⟩ := receipts_of_none hran hof
      rw [haddresses, hgot]
      rfl
  | some t =>
      obtain ⟨haddresses, hgot⟩ := receipts_of_some hran hof
      have hindex : ((receipts { v with site := s' } left).1.addresses client).idxOf t.address =
          (v.addresses client).idxOf t.address := by
        rw [haddresses]
        split
        · rfl
        · exact idxOf_noted _ _
      have hheard : ((receipts { v with site := s' } left).1.addresses client).length =
          if (f t.station).left.isEmpty then (v.addresses client).length
          else max (v.addresses client).length ((v.addresses client).idxOf t.address + 1) := by
        rw [haddresses, apply_ite List.length, length_noted]
      have hrunning : (t.carry f).map (fun t' =>
            (((receipts { v with site := s' } left).1.addresses client).idxOf t'.address, t'.station)) =
          (f t.station).station.map fun station =>
            ((v.addresses client).idxOf t.address, station) := by
        rw [Transfer.carry, Option.map_map, ← hindex]
        rfl
      rw [hgot, hheard, Option.bind_some, hrunning]
      rfl

/-- What happens at the site keeps a visit orderly. -/
theorem Orderly.meet (h : v.Orderly owner) (hran : v.site.Ran f s' left) :
    (receipts { v with site := s' } left).1.Orderly owner where
  site := by
    rw [receipts_site]
    exact h.site.ran hran
  known p hp := by
    rw [receipts_site]
    show ∃ n < s'.begun, p.2 = s'.host.address n ∧ _
    rw [hran.begun, hran.host]
    rcases receipts_known left _ p hp with hp | ⟨d, hd, rfl⟩
    · exact h.known p hp
    · obtain ⟨t, ht, hsource, hclient⟩ := hran.of_sent hd
      obtain ⟨n, hn, haddress, howner⟩ := h.site.owned t ht
      exact ⟨n, hn, hsource.trans haddress, hclient.trans howner⟩
  once client := by
    cases hof : v.site.transferOf client with
    | none =>
        rw [(receipts_of_none hran hof).1]
        exact h.once client
    | some t =>
        rw [(receipts_of_some hran hof).1]
        split
        · exact h.once client
        · exact nodup_noted (h.once client) _

/-- **An outlook goes on by itself**, and sees of an action only what its client sends. -/
theorem Orderly.act (h : v.Orderly owner) (hrest : v.site.AtRest) (action : ClientAction) :
    ∃ owner', (v.act action).1.Orderly owner' ∧ (v.act action).1.site.AtRest ∧
      (v.act action).1.site.host = v.site.host ∧
      ∀ client, ((v.act action).1.outlook client, (v.act action).2.to client) =
        (v.outlook client).act v.site.host client action := by
  cases action with
  | send letters =>
      obtain ⟨owner', hposted, hhost, houtlook⟩ := h.post_all letters
      obtain ⟨hran, hrest', hnow⟩ := Site.settle_ran hposted.site
      have hsite := receipts_site (letters.foldl Visit.post v).site.settle.2
        { letters.foldl Visit.post v with site := (letters.foldl Visit.post v).site.settle.1 }
      refine ⟨owner', hposted.meet hran, ?_, ?_, fun client => ?_⟩
      · exact Eq.substr hsite hrest'
      · exact (congrArg Site.host hsite).trans (hran.host.trans hhost)
      · have hmeet := hposted.meet_outlook hran client
        have htime : (letters.foldl Visit.post v).site.now = _ := congrArg Outlook.now (houtlook client)
        rw [hnow, htime, houtlook, hhost] at hmeet
        exact hmeet
  | wait milliseconds =>
      obtain ⟨hran, hrest', hnow⟩ := Site.wait_ran h.site hrest milliseconds
      have hsite := receipts_site (v.site.wait milliseconds).2
        { v with site := (v.site.wait milliseconds).1 }
      refine ⟨owner, h.meet hran, ?_, ?_, fun client => ?_⟩
      · exact Eq.substr hsite hrest'
      · exact (congrArg Site.host hsite).trans hran.host
      · have hmeet := h.meet_outlook hran client
        rw [hnow] at hmeet
        exact hmeet

/-- What a client gets in a visit is what its outlook comes to. -/
theorem play_outlook (host : Host) (client : Address) (script : List ClientAction) :
    ∀ {v : Visit} {owner : Nat → Address}, v.Orderly owner → v.site.AtRest → v.site.host = host →
      (v.play script).map (·.to client) = (v.outlook client).play host client script := by
  induction script with
  | nil => exact fun _ _ _ => rfl
  | cons action rest ih =>
      intro v owner h hrest hhost
      obtain ⟨owner', h', hrest', hhost', hact⟩ := h.act hrest action
      have houtlook := hact client
      rw [hhost] at houtlook
      rw [play, Outlook.play, ← houtlook, List.map_cons, ih h' hrest' (hhost'.trans hhost)]

end Visit

/-- **Transfers are isolated.**  From a server without faults that never gives an address to two transfers,
a client gets the same, action by action and datagram by datagram, whatever the other clients send. -/
theorem transfers_isolated {config : Config} {server : Server} (hmake : Server.make config = .ok server)
    (hrate : config.rate ≤ 0.0) {faults : FaultModel} (hfaults : faults.rate = config.rate)
    {address : Nat → Address} (hfresh : Function.Injective address) (link : Link)
    (file : String → Source) (script : List ClientAction) (client : Address) :
    (visit link server file script faults address).map (·.map (·.to client)) =
      (visit link server file (script.map (·.only client)) faults address).map
        (·.map (·.to client)) := by
  obtain ⟨rfl, -⟩ := Server.make_eq_ok hmake
  let site := Site.start link { config := config } file faults address
  have hidle : faults.Idle := by
    unfold FaultModel.Idle
    rwa [hfaults]
  have hnobody : ∀ t, t ∉ site.transfers := fun t => List.not_mem_nil
  have horderly : Visit.Orderly (fun _ => client) ⟨site, []⟩ :=
    ⟨⟨hidle, hfresh, rfl, .nil, fun t ht => absurd ht (hnobody t),
      fun t ht => absurd ht (hnobody t)⟩, fun p hp => absurd hp List.not_mem_nil, fun _ => .nil⟩
  have hrest : site.AtRest := fun t ht => absurd ht (hnobody t)
  have hsame : (Visit.play ⟨site, []⟩ script).map (·.to client) =
      (Visit.play ⟨site, []⟩ (script.map (·.only client))).map (·.to client) := by
    rw [Visit.play_outlook _ client script horderly hrest rfl,
      Visit.play_outlook _ client (script.map (·.only client)) horderly hrest rfl, Outlook.play_only]
  unfold visit
  cases connect link with
  | error a => rfl
  | ok _ => exact congrArg Except.ok hsame

/-- A file of one byte, and no others. -/
def twoClientsFile (name : String) : Source :=
  if name = "note" then .contents [65] else .missing

/-- Two clients ask for the file.  The second confirms its end; the first first lets a wait go by. -/
def twoClients : List ClientAction :=
  let ask (client : String) : Letter :=
    ⟨⟨client, 0⟩, none, (FileRequest.toPacket ⟨⟨2, 400⟩, "note"⟩).frame⟩
  let confirm (client : String) : Letter :=
    ⟨⟨client, 0⟩, some 1, (Packet.control .eofAck 2).frame⟩
  [.send [ask "second", ask "first"], .wait 500, .send [confirm "second", ask "first"], .wait 600,
    .send [confirm "first"]]

/-- Two clients are served, and the first gets what it would get alone. -/
theorem two_clients_isolated : ∃ server, Server.make { maxTries := 1 } = .ok server ∧
    ({ maxTries := 1 } : Config).rate ≤ 0.0 ∧ Function.Injective Site.transferAddress ∧
    (visit .up server twoClientsFile twoClients).toOption.map (·.map fun g =>
      ((g.to ⟨"first", 0⟩).length, (g.to ⟨"second", 0⟩).length)) =
        some [(3, 3), (0, 0), (0, 0), (1, 0), (0, 0)] ∧
    (visit .up server twoClientsFile twoClients).map (·.map (·.to ⟨"first", 0⟩)) =
      (visit .up server twoClientsFile (twoClients.map (·.only ⟨"first", 0⟩))).map
        (·.map (·.to ⟨"first", 0⟩)) := by
  let server : Server := { config := { maxTries := 1 } }
  have hmake : Server.make { maxTries := 1 } = .ok server := rfl
  have hrate : ({ maxTries := 1 } : Config).rate ≤ 0.0 := by decide
  have hfresh : Function.Injective Site.transferAddress := fun m n h => congrArg Address.port h
  exact ⟨server, hmake, hrate, hfresh, by decide +kernel,
    transfers_isolated hmake hrate rfl hfresh .up twoClientsFile twoClients ⟨"first", 0⟩⟩

end SelectiveReject.Scenario
