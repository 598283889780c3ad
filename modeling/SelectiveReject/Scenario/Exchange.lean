import SelectiveReject.Scenario.Site

/-!
# A client and a server together

One download runs against a site.  What either sends arrives at once; when neither can move, time
passes to the end of the earliest wait.  The exchange is over when the download has ended and the
site has read what it sent last.
-/

namespace SelectiveReject.Scenario

structure Exchange where
  site : Site
  client : Station Download
  faults : FaultModel

/-- What an exchange shows: how the download ended, if it has, what its file holds, and how many
transfers are under way after it. -/
structure Settlement where
  result : Option (Except Stop Statistics)
  file : Option Bytes
  active : Nat

namespace Exchange

def clientAddress : Address := ⟨"client", 0⟩

def serverAddress : Address := ⟨"server", 0⟩

/-- Delivers what the client has sent. -/
def post (site : Site) (departures : List Departure) : Site :=
  departures.foldl (fun site d =>
    let datagram : Arrival := ⟨clientAddress, d.bytes⟩
    if d.target = serverAddress then site.receive datagram else site.forward d.target datagram) site

/-- Lets the client run, then the site, then delivers to the client; whether anything moved. -/
def round (e : Exchange) : Exchange × Bool :=
  let (client, faults, sent) :=
    if e.client.canMove then e.client.settle e.site.link e.site.now e.faults
    else (e.client, e.faults, [])
  let (site, answers) := (post e.site sent).settle
  let datagrams := answers.map fun d => ⟨d.source, d.departure.bytes⟩
  (⟨site, client.enqueue datagrams, faults⟩, e.client.canMove || !sent.isEmpty || !answers.isEmpty)

/-- The earliest time at which a wait is over. -/
def due (e : Exchange) : Option Nat :=
  (e.client.deadline.toList ++ e.site.transfers.filterMap (·.station.deadline)).min?

/-- Lets time pass to the end of the earliest wait. -/
def pass (e : Exchange) : Exchange :=
  match e.due with
  | none => e
  | some time =>
      let site := { e.site with now := time }.expireDue
      let client := if (e.client.dueBy time).isSome then e.client.expire else e.client
      { e with site := site, client := client }

/-- Goes on for at most `count` rounds. -/
def run (e : Exchange) : Nat → Exchange
  | 0 => e
  | count + 1 =>
      let (next, moved) := e.round
      if moved then next.run count
      else if next.client.ended then next
      else next.pass.run count

def settlement (e : Exchange) : Settlement :=
  ⟨e.client.result, e.client.machine.file, e.site.server.activeTransfers⟩

end Exchange

/-- Fetches a file from a site in at most `rounds` rounds. -/
def exchange (site : Site) (download : Download) (rounds : Nat) : Settlement :=
  (Exchange.run ⟨site, .start download, .ofConfig download.config⟩ rounds).settlement

end SelectiveReject.Scenario
