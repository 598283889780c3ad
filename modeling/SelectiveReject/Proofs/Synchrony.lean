import SelectiveReject.Proofs.Safety

/-!
# The windows of both sides move together

As long as a client has one transfer, what it writes next lies in the window of the transfer, and no piece
on its way lies behind the client's own window:

```
lower ≤ next ≤ current ≤ lower + window        seq < next + window
```

So the client never has to turn a piece away because its buffer does not reach that far.
-/

namespace SelectiveReject.Scenario

/-- A packet that the client may take next, and the session that takes it. -/
inductive Offers (c : Station Download) : Session → Packet → Prop
  | queued (s : Session) (x : Arrival) (p : Packet) (hstage : c.machine.stage = .receiving s)
      (hx : x ∈ c.queue) (hsource : x.source = c.machine.peer) (hp : x.packet = .ok p) :
      Offers c s p
  | first (buffer : ReorderBuffer) (p : Packet) (hstage : c.machine.stage = .answered (some p))
      (hbuffer : ReorderBuffer.make c.machine.request.parameters.window.toNat = .ok buffer) :
      Offers c { buffer := buffer } p

/-- A transfer and a client whose windows, both of the given size, are in step. -/
structure Synchronised (window : Nat) (sender : Serving) (n : Network) : Prop where
  lower : sender.window.lower ≤ n.client.machine.next
  current : n.client.machine.next ≤ sender.window.current
  bounded : sender.window.current ≤ sender.window.lower + window
  wire : ∀ d ∈ n.wire, ∀ p, d.arrival.packet = .ok p → p.flag.isData = true →
    p.seq < n.client.machine.next + window
  queue : ∀ x ∈ n.client.queue, ∀ p, x.packet = .ok p → p.flag.isData = true →
    p.seq < n.client.machine.next + window
  /-- The buffer has room for every piece that is not written yet. -/
  inside : ∀ s p, Offers n.client s p → p.flag.isData = true → s.next ≤ p.seq →
    ∃ added, (s.buffer.add p.payload p.seq).1 = .ok added

namespace Network

variable {a : Addresses} {j : Job} {n : Network}

/-- A piece that is near enough finds room. -/
theorem add_of_near {s : Session} {p : Packet} {limit : Nat} (h : s.Fits j limit)
    (hword : limit + j.window < limit32) (hlo : s.next ≤ p.seq) (hhi : p.seq < s.next + j.window) :
    ∃ added, (s.buffer.add p.payload p.seq).1 = .ok added := by
  have hlo' : s.buffer.next ≤ p.seq := hlo
  have hnear : ¬ s.buffer.next + s.buffer.size ≤ p.seq := by
    rw [h.buffer.size]
    exact Nat.not_le.mpr hhi
  rw [ReorderBuffer.add_eq h.buffer hword hlo', if_neg hnear]
  split
  · exact ⟨.duplicate, rfl⟩
  · exact ⟨.stored, rfl⟩

/-- **The windows are in step** in every state with one transfer, whatever has been lost, repeated,
reordered or damaged, and whichever timers have run out. -/
theorem windows_synchronised (s : Setup) (h : s.Reaches n) {t : Transfer}
    (htransfers : n.site.transfers = [t]) {sender : Serving} {activity : Activity}
    (hmachine : t.station.machine = .serving sender activity) :
    Synchronised s.fetch.parameters.window.toNat sender n := by
  have hsound := sound_of_reaches h
  have hlast := s.job.last_lt
  have hhorizon := hsound.horizon_le
  have hupload := (hsound.transfers t (by simp [htransfers])).upload
  rw [hmachine] at hupload
  have hfits : sender.Fits s.job := Serving.Keeps.fits hupload
  have hone : 1 ≤ (n.view s.addresses).horizon := one_le_horizon _
  have hcurrent : (n.view s.addresses).horizon = sender.window.current := by
    show horizon n.site.transfers = _
    rw [htransfers]
    exact horizon_single hmachine hfits
  have hnear : ∀ {x : Arrival}, x.Honest s.job (n.view s.addresses) → ∀ p, x.packet = .ok p →
      p.flag.isData = true → p.seq < n.client.machine.next + s.job.window :=
    fun hx p hp hdata => ((hx.honest p hp).carries hdata).near
  constructor
  · exact hupload.lower
  · rw [← hcurrent]
    exact Download.next_le hsound.client.fits hone
  · have hbounded := hfits.window.bounded
    rwa [hfits.size] at hbounded
  · exact fun d hd => hnear (hsound.wire d hd)
  · exact fun x hx => hnear (hsound.queue x hx)
  · intro session p hoffers hdata hlo
    cases hoffers with
    | queued _ x _ hstage hx hsource hp =>
        have hsession : n.client.machine.session = some session := by
          rw [Download.session, hstage]
        have hp := hnear (hsound.queue x hx) p hp hdata
        rw [Download.next_of_session hsession] at hp
        exact add_of_near (hsound.client.fits.session session hsession) (by omega) hlo hp
    | first buffer _ hstage hbuffer =>
        have hsession : n.client.machine.session = none := by rw [Download.session, hstage]
        have hp := ((hsound.client.first p hstage).carries hdata).near
        have hwindow := s.job.window_range
        rw [hsound.client.fits.request] at hbuffer
        have hmake : ReorderBuffer.make s.job.request.parameters.window.toNat =
            .ok (Session.opened s.job).buffer := ReorderBuffer.make_eq hwindow.1 hwindow.2
        rw [hmake] at hbuffer
        cases hbuffer
        change p.seq < n.client.machine.next + s.job.window at hp
        rw [Download.next_of_no_session hsession] at hp
        exact add_of_near (Session.fits_opened hone) (by omega) hlo hp

/-- The windows are in step where the letter stalls. -/
theorem letter_synchronised : ∃ n t sender activity, Setup.letter.Reaches n ∧
    n.site.transfers = [t] ∧ t.station.machine = .serving sender activity ∧
    Synchronised 2 sender n := by
  have hstalls : (Setup.letter.start.run Setup.letter.addresses Setup.letterStalls).any
      (fun n => n.site.transfers.length = 1 ∧
        ∀ t ∈ n.site.transfers, 1 < t.station.machine.current) = true := by decide +kernel
  obtain ⟨n, hrun, hn⟩ := (Option.any_eq_true _ _).mp hstalls
  obtain ⟨hlength, hsent⟩ := of_decide_eq_true hn
  obtain ⟨t, ht⟩ := List.length_eq_one_iff.mp hlength
  have hcurrent : 1 < t.station.machine.current := hsent t (by simp [ht])
  have hreaches : Setup.letter.Reaches n := reaches_of_run .refl hrun
  cases hmachine : t.station.machine with
  | serving sender activity =>
      exact ⟨n, t, sender, activity, hreaches, ht, hmachine,
        windows_synchronised _ hreaches ht hmachine⟩
  | opening _ _ _ _ =>
      rw [hmachine] at hcurrent
      cases Nat.lt_irrefl 1 hcurrent
  | refused _ _ =>
      rw [hmachine] at hcurrent
      cases Nat.lt_irrefl 1 hcurrent

end Network

end SelectiveReject.Scenario
