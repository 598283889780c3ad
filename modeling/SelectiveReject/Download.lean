import SelectiveReject.Machine
import SelectiveReject.ReorderBuffer
import SelectiveReject.FileRequest

/-!
# Receiving a file

A download asks a server for a file until it answers.  The answer comes from an address of its own,
which is the peer from then on.  Either there is no such file, or the file on this side is created
and the packets are taken as they come:

* a data packet that is next, or was written before, is answered with an acknowledgement of
  everything written;
* a data packet from further on, or the end of the file announced too early, is answered by asking
  for the least packet that is missing, and so is a packet that was written while later ones are
  still held;
* the end of the file, when everything before it is written, is confirmed, and ends the download.

A damaged packet is not answered.  The first data packet or announcement of the end may arrive
before the server's answer and stands for it.
-/

namespace SelectiveReject

/-- What a client wants, and where it is to be kept. -/
structure Fetch where
  name : String
  parameters : Parameters
  /-- What the file's place holds before. -/
  before : Option Bytes := none
  /-- Whether a file can be created there. -/
  creatable : Bool := true

/-- The part of a download that takes data. -/
structure Session where
  buffer : ReorderBuffer
  sink : Sink := {}

/-- What taking one packet leaves: the packets that answer it, and whether the file is complete. -/
structure Reply where
  session : Session
  statistics : Statistics
  packets : List Packet := []
  complete : Bool := false

inductive Stage where
  /-- The file is to be asked for. -/
  | asking
  /-- A wait for the answer is to begin. -/
  | asked
  | handshake
  /-- The server has answered, perhaps with a packet that is to be taken first. -/
  | answered (first : Option Packet)
  | receiving (s : Session)
  /-- Nothing has come for too long. -/
  | silent (s : Session)
  | complete (s : Session)

structure Download where
  config : Config
  fetch : Fetch
  request : FileRequest
  /-- The server's own address. -/
  server : Address
  /-- Where the packets of the file come from. -/
  peer : Address
  retry : Retry
  statistics : Statistics := {}
  stage : Stage := .asking

/-- What creating a file in a place that does not exist reports. -/
def uncreatableError : Error := .io "No such file or directory (os error 2)"

namespace Session

/-- Asks for the least packet that is missing. -/
def askAgain (s : Session) (t : Statistics) (sent : List Packet) : Except Stop Reply :=
  match s.buffer.lowestMissing with
  | .error a => .error (.abort a)
  | .ok missing =>
      .ok ⟨s, { t with srejsSent := t.srejsSent + 1, packetsSent := t.packetsSent + 1 },
        sent ++ [.control .srej (missing.getD s.buffer.next)], false⟩

/-- Acknowledges everything written. -/
def acknowledge (s : Session) (t : Statistics) : Except Stop (Statistics × Packet) :=
  match s.buffer.lastCommitted with
  | .error a => .error (.abort a)
  | .ok last =>
      .ok ({ t with acksSent := t.acksSent + 1, packetsSent := t.packetsSent + 1 },
        .control .ack last)

/-- Takes the packet that is to be written next, with those held behind it. -/
def takeNext (s : Session) (t : Statistics) (payload : Bytes) (seq : Nat) : Except Stop Reply :=
  match s.buffer.add payload seq with
  | (.error e, _) => .error e
  | (.ok _, buffer) =>
      match buffer.flush s.sink with
      | (.error e, _) => .error e
      | (.ok _, buffer, sink) =>
          let s : Session := ⟨buffer, sink⟩
          match s.acknowledge t with
          | .error e => .error e
          | .ok (t, ack) =>
              match s.buffer.lowestMissing with
              | .error a => .error (.abort a)
              | .ok none => .ok ⟨s, t, [ack], false⟩
              | .ok (some _) => s.askAgain t [ack]

/-- Holds a packet from further on and asks for what is missing before it.  A packet too far ahead
is not held. -/
def takeLater (s : Session) (t : Statistics) (payload : Bytes) (seq : Nat) : Except Stop Reply :=
  match s.buffer.add payload seq with
  | (.ok .stored, buffer) => { s with buffer := buffer }.askAgain t []
  | (.ok .duplicate, buffer) =>
      { s with buffer := buffer }.askAgain { t with duplicatePackets := t.duplicatePackets + 1 } []
  | (.error (.error (.outsideWindow _ _ _)), buffer) => { s with buffer := buffer }.askAgain t []
  | (.error e, _) => .error e

/-- Takes a data packet. -/
def takeData (s : Session) (t : Statistics) (payload : Bytes) (seq : Nat) : Except Stop Reply :=
  if seq < s.buffer.next then
    (s.acknowledge { t with duplicatePackets := t.duplicatePackets + 1 }).map fun (t, ack) =>
      ⟨s, t, [ack], false⟩
  else if seq = s.buffer.next then s.takeNext t payload seq
  else s.takeLater t payload seq

/-- Takes any packet of the peer. -/
def take (s : Session) (t : Statistics) (p : Packet) : Except Stop Reply :=
  if p.flag.isData then s.takeData t p.payload p.seq
  else if p.flag = .endOfFile ∧ p.seq = s.buffer.next then
    .ok ⟨s, { t with packetsSent := t.packetsSent + 1 }, [.control .eofAck p.seq], true⟩
  else if p.flag = .endOfFile ∧ s.buffer.next < p.seq then s.askAgain t []
  else .ok ⟨s, t, [], false⟩

end Session

namespace Download

/-- A download from the server at an address that has been looked up: the settings are checked
first, then the request, and last whether the address was found. -/
def start (config : Config) (fetch : Fetch) (server : Except Error Address) :
    Except Error Download :=
  match config.check with
  | .error e => .error e
  | .ok () =>
      match FileRequest.make fetch.parameters fetch.name with
      | .error e => .error e
      | .ok request =>
          server.map fun address => {
            config := config
            fetch := fetch
            request := request
            server := address
            peer := address
            retry := ⟨0, config.maxTries⟩ }

/-- What was handed to the writer for the file's place, once the place has been opened; until then, what
the place holds.  The last bytes may be with the writer still, as long as the download goes on. -/
def file (d : Download) : Option Bytes :=
  match d.stage with
  | .receiving s | .silent s | .complete s => some s.sink.bytes
  | _ => d.fetch.before

/-- Goes on after a packet was taken. -/
def settle (d : Download) (queue : List Arrival) : Except Stop Reply → Move Download
  | .error e => .stop (.error e)
  | .ok reply =>
      let stage := if reply.complete then .complete reply.session else .receiving reply.session
      .next { d with statistics := reply.statistics, stage := stage } queue reply.packets

/-- Reads a datagram; damaged ones are counted. -/
def read (d : Download) (datagram : Arrival) : Download × Option Packet :=
  match datagram.packet with
  | .ok packet => (d, some packet)
  | .error .corrupt =>
      let t := d.statistics
      ({ d with statistics := { t with corruptPackets := t.corruptPackets + 1 } }, none)
  | .error _ => (d, none)

/-- Begins a wait for the answer, or gives the server up. -/
def beginWait (d : Download) (queue : List Arrival) : Move Download :=
  match d.retry.attempt with
  | .error a => .abort a
  | .ok (false, retry) => .fail (.peerSilent retry.maxTries)
  | .ok (true, retry) => .next { d with retry := retry, stage := .handshake } queue []

/-- Takes the answer of the server, or a packet that stands for it; anything else is passed over.
-/
def answer (d : Download) (datagram : Arrival) (queue : List Arrival) : Move Download :=
  let d := { d with retry := d.retry.reset }
  match d.read datagram with
  | (d, none) => .next { d with stage := .asked } queue []
  | (d, some packet) =>
      if packet.flag = .fnameBad then .fail (.fileNotFound d.fetch.name)
      else if packet.flag = .fnameOk then
        .next { d with peer := datagram.source, stage := .answered none } queue []
      else if packet.flag.isData ∨ packet.flag = .endOfFile then
        .next { d with peer := datagram.source, stage := .answered (some packet) } queue []
      else .next { d with stage := .asked } queue []

/-- Creates the file and takes the packet that came first. -/
def createFile (d : Download) (first : Option Packet) (queue : List Arrival) : Move Download :=
  if !d.fetch.creatable then .fail uncreatableError
  else
    match ReorderBuffer.make d.request.parameters.window.toNat with
    | .error e => .fail e
    | .ok buffer =>
        let session : Session := { buffer := buffer }
        match first with
        | none => .next { d with stage := .receiving session } queue []
        | some packet => d.settle queue (session.take d.statistics packet)

/-- Takes a datagram of the file; only packets of the peer count. -/
def receive (d : Download) (s : Session) (datagram : Arrival) (queue : List Arrival) :
    Move Download :=
  if datagram.source ≠ d.peer then .next d queue []
  else
    match d.read datagram with
    | (d, none) => .next d queue []
    | (d, some packet) => d.settle queue (s.take d.statistics packet)

def step (d : Download) (queue : List Arrival) : Move Download :=
  match d.stage, queue with
  | .asking, queue =>
      let t := d.statistics
      .next { d with
        peer := d.server
        statistics := { t with packetsSent := t.packetsSent + 1 }
        stage := .asked } queue [d.request.toPacket]
  | .asked, queue => d.beginWait queue
  | .handshake, [] => .wait
  | .handshake, datagram :: queue => d.answer datagram queue
  | .answered first, queue => d.createFile first queue
  | .receiving _, [] => .wait
  | .receiving s, datagram :: queue => d.receive s datagram queue
  | .silent _, _ => .fail (.receiveTimeout (d.config.longTimeout / 1000))
  | .complete s, _ =>
      .stop (.ok { d.statistics with
        payloadBytes := s.buffer.bytesWritten
        digest := s.buffer.digest })

def expire (d : Download) : Download :=
  match d.stage with
  | .handshake => { d with stage := .asking }
  | .receiving s => { d with stage := .silent s }
  | _ => d

def patience (d : Download) : Nat :=
  match d.stage with
  | .receiving _ => d.config.longTimeout
  | _ => d.config.shortTimeout

instance : Machine Download where
  step := step
  expire := expire
  patience := patience
  peer := peer
  effort _ := 16
  expiries d := d.retry.maxTries + 2

end Download

end SelectiveReject
