import Std.Async.UDP
import Std.Async.Timer
import Std.Async.DNS
import SelectiveReject.Scenario.Site
import SelectiveReject.CommandLine.Client
import SelectiveReject.CommandLine.Server

/-!
# The program

`client` and `server` with the arguments of their command lines.  The machines decide everything;
this module gives them sockets, files and a clock.
-/

namespace SelectiveReject.Outer

open Std.Async Std.Net Scenario CommandLine

/-! ## Sockets -/

def toAddress (a : SocketAddress) : Address := ⟨toString a.ipAddr, a.port.toNat⟩

def ofAddress (a : Address) : Option SocketAddress :=
  match IPv4Addr.ofString a.host with
  | some ip => some (.v4 ⟨ip, UInt16.ofNat a.port⟩)
  | none => (IPv6Addr.ofString a.host).map fun ip => .v6 ⟨ip, UInt16.ofNat a.port⟩

def anyV4 (port : UInt16) : SocketAddress := .v4 ⟨.ofParts 0 0 0 0, port⟩

def anyV6 (port : UInt16) : SocketAddress := .v6 ⟨.ofParts 0 0 0 0 0 0 0 0, port⟩

def bindTo (address : SocketAddress) : IO UDP.Socket := do
  let socket ← UDP.Socket.mk
  socket.bind address
  return socket

/-- A socket of the family of a peer. -/
def bindFor (peer : SocketAddress) : IO UDP.Socket :=
  match peer with
  | .v4 _ => bindTo (anyV4 0)
  | .v6 _ => bindTo (anyV6 0)

def sendTo (socket : UDP.Socket) (d : Departure) : IO Unit := do
  match ofAddress d.target with
  | some target => (socket.send d.bytes.toByteArray (some target)).block
  | none => throw (.userError ("no address: " ++ d.target.host))

/-- A datagram at one of the sockets, with the socket's position. -/
def arrivals (sockets : List UDP.Socket) : List (Selectable (Option (Nat × Arrival))) :=
  sockets.zipIdx.map fun (socket, position) =>
    .case (socket.recvSelector receiveLimit.toUInt64) fun (bytes, source) =>
      return source.map fun source => (position, ⟨toAddress source, bytes.data.toList⟩)

/-- What comes first: a datagram at one of the sockets, or the end of the wait. -/
def receiveWithin (sockets : List UDP.Socket) (milliseconds : Option Nat) :
    IO (Option (Nat × Arrival)) := do
  match milliseconds with
  | none => (Selectable.one (arrivals sockets).toArray).block
  | some ms =>
      let timer ← (Selector.sleep (.ofNat ms)).block
      let timeout : Selectable (Option (Nat × Arrival)) := .case timer fun _ => pure none
      (Selectable.one (arrivals sockets ++ [timeout]).toArray).block

/-- A random seed. -/
def entropy : IO UInt64 := do
  let bytes ← IO.getRandomBytes 8
  return bytes.data.foldl (fun n b => n * 256 + b.toUInt64) 0

/-! ## The client -/

/-- The address that a host name stands for. -/
def lookUp (host : String) (port : UInt16) : IO (Except Error SocketAddress) := do
  try
    let found : Array IPAddr ← (DNS.getAddrInfo host (toString port)).block
    match found.toList with
    | .v4 ip :: _ => return .ok (.v4 ⟨ip, port⟩)
    | .v6 ip :: _ => return .ok (.v6 ⟨ip, port⟩)
    | [] => return .error (.unresolvedHost (host ++ ":" ++ toString port))
  catch e => return .error (unresolved host port (toString e))

/-- The file that a download writes, and how many bytes it has. -/
structure OutputFile where
  handle : IO.FS.Handle
  size : Nat

/-- Writes what the download has received since the last time; the file is created the first
time. -/
def writeNews (destination : String) (file : Option OutputFile) (d : Download) :
    IO (Option OutputFile) := do
  match d.stage with
  | .receiving s | .silent s | .complete s =>
      let file ← match file with
        | some file => pure file
        | none => do pure ⟨← IO.FS.Handle.mk destination .write, 0⟩
      let news := s.sink.contents.extract file.size s.sink.contents.size
      unless news.isEmpty do
        file.handle.write ⟨news⟩
        file.handle.flush
      return some ⟨file.handle, s.sink.contents.size⟩
  | _ => return file

/-- Runs a download until it ends. -/
partial def download (destination : String) (socket : UDP.Socket) (station : Station Download)
    (faults : FaultModel) (file : Option OutputFile) : IO (Except Stop Statistics) := do
  let (station, faults, departures) := station.settle .up 0 faults
  departures.forM (sendTo socket)
  let file ← writeNews destination file station.machine
  match station.result with
  | some result => return result
  | none =>
      match ← receiveWithin [socket] (some (Machine.patience station.machine)) with
      | some (_, arrival) => download destination socket (station.enqueue [arrival]) faults file
      | none => download destination socket station.expire faults file

/-- Fetches the file that a command asks for. -/
def fetch (c : ClientCommand) : IO (Except Error Statistics) := do
  let found ← lookUp c.host c.port
  match Download.start c.config (c.fetch none true) (found.map toAddress), found with
  | .ok d, .ok server =>
      try
        let socket ← bindFor server
        let faults := FaultModel.ofConfig c.config (← entropy)
        match ← download c.destination socket (.start d) faults none with
        | .ok statistics => return .ok statistics
        | .error (.error e) => return .error e
        | .error (.abort _) => throw (.userError "aborted")
      catch e => return .error (.io (toString e))
  | .error e, _ | _, .error e => return .error e

def log (lines : List Line) : IO Unit := lines.forM fun line => IO.println line.render

def client (args : List String) : IO UInt32 := do
  match ClientCommand.read args with
  | .help => do IO.println ClientCommand.usage; return 0
  | .refused reason => do IO.eprintln (refusal reason ClientCommand.usage); return 1
  | .accepted c => do
      log c.greeting
      let before ← IO.monoNanosNow
      let result ← fetch c
      let elapsed := (← IO.monoNanosNow) - before
      log (match result with
        | .ok statistics => c.success (statistics.summary elapsed)
        | .error e => [ClientCommand.failure e])
      return ClientCommand.exitCode result

/-! ## The server -/

/-- What an open file holds. -/
def readSource (handle : IO.FS.Handle) : IO Source :=
  try
    return .contents (← handle.readBinToEnd).data.toList
  catch _ => return .unreadable

/-- The file of a name. -/
def openSource (name : String) : IO Source := do
  let handle ← try
      some <$> IO.FS.Handle.mk name .read
    catch _ => pure none
  match handle with
  | some handle => readSource handle
  | none => return .missing

/-- The socket of each transfer. -/
abbrev Sockets := List (Address × UDP.Socket)

/-- Sends what the transfers have to say. -/
def deliver (sockets : Sockets) (deliveries : List Delivery) : IO Unit :=
  deliveries.forM fun d => do
    match sockets.find? (·.1 = d.source) with
    | some (_, socket) =>
        try
          sendTo socket d.departure
        catch _ => pure ()
    | none => pure ()

/-- Opens sockets for the transfers that have none. -/
def openSockets (site : Site) (sockets : Sockets) : IO Sockets := do
  let missing := site.transfers.filter fun t => !sockets.any (·.1 = t.address)
  let opened ← missing.mapM fun t => do
    let family := (ofAddress t.client).getD (anyV4 0)
    return (t.address, ← bindFor family)
  return sockets ++ opened

/-- Serves requests; it never ends. -/
partial def serve (listener : UDP.Socket) (site : Site) (sockets : Sockets) : IO Unit := do
  let sockets ← openSockets site sockets
  let now ← IO.monoMsNow
  let (site, deliveries) := { site with now := now }.expireDue.settle
  deliver sockets deliveries
  let sockets := sockets.filter fun entry => site.transfers.any (·.address = entry.1)
  let due := (site.transfers.filterMap (·.station.deadline)).min?
  let next ← receiveWithin (listener :: sockets.map (·.2)) (due.map (· - now))
  match next with
  | none => serve listener site sockets
  | some (0, arrival) =>
      let source ← match Server.request arrival with
        | .ok (some request) => openSource request.name
        | _ => pure .missing
      serve listener ({ site with file := fun _ => source }.receive arrival) sockets
  | some (n + 1, arrival) =>
      match sockets[n]? with
      | some (address, _) => serve listener (site.forward address arrival) sockets
      | none => serve listener site sockets

/-- Binds to all addresses, of both families if the host has both. -/
def bindAny (port : UInt16) : IO UDP.Socket := do
  try
    bindTo (anyV6 port)
  catch _ => bindTo (anyV4 port)

def server (args : List String) : IO UInt32 := do
  match ServerCommand.read args with
  | .help => do IO.println ServerCommand.usage; return 0
  | .refused reason => do IO.eprintln (refusal reason ServerCommand.usage); return 1
  | .accepted c => do
      log c.greeting
      let listener ← bindAny c.port
      log [⟨.info, "Server port: " ++ toString (← listener.getSockName).port⟩]
      let faults := FaultModel.ofConfig c.config (← entropy)
      let site := Site.start .up ⟨c.config, []⟩ (fun _ => .missing) faults
      serve listener site []
      return 0

end SelectiveReject.Outer

def main (args : List String) : IO UInt32 :=
  match args with
  | "client" :: rest => SelectiveReject.Outer.client rest
  | "server" :: rest => SelectiveReject.Outer.server rest
  | _ => do
      IO.eprintln "usage: (client | server) <arguments>"
      return 1
