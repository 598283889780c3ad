import SelectiveReject.Machine
import SelectiveReject.SendWindow
import SelectiveReject.FileRequest
import SelectiveReject.Crc32

/-!
# Sending a file

An upload answers one request.  It opens the file and says whether it could; then it sends the
file in packets of the size asked for, as many ahead of the last acknowledgement as the window
allows; then it says that the file has ended, until the client confirms it.

```
opening ─→ sending ⇄ listening, waiting, overdue (room)
   │           └──→ listening, waiting, overdue (farewell) ─→ done
   └─→ refused
```

After each data packet, and before each wait, all datagrams that have arrived are read.  When a
wait ends without any, the oldest packet that is not acknowledged is sent again, or, when all are,
the end of the file is announced again.  When too many waits in a row have ended so, the client is
given up.
-/

namespace SelectiveReject

/-- The file that a request names. -/
inductive Source where
  | missing
  /-- It can be opened but not read. -/
  | unreadable
  | contents (bytes : Bytes)
  deriving DecidableEq, Repr

/-- An upload whose file is open. -/
structure Serving where
  request : FileRequest
  client : Address
  shortTimeout : Nat
  retry : Retry
  window : SendWindow
  /-- The rest of the file; none if it cannot be read. -/
  unread : Option Bytes
  /-- The number after the last data packet, once the end of the file was announced. -/
  eofNumber : Option Nat := none
  statistics : Statistics := {}
  crc : Crc32 := .start

/-- Why an upload reads its feedback. -/
inductive Goal where
  /-- The next data packet is to be sent. -/
  | more
  /-- The window must open. -/
  | room
  /-- The end of the file must be confirmed. -/
  | farewell
  deriving DecidableEq, Repr

/-- What an upload with an open file is doing. -/
inductive Activity where
  | sending
  | listening (goal : Goal)
  | waiting (goal : Goal)
  | overdue (goal : Goal)
  | done
  deriving DecidableEq, Repr

inductive Upload where
  /-- The file is yet to be opened. -/
  | opening (config : Config) (request : FileRequest) (client : Address) (source : Source)
  /-- The client has been told that there is no such file. -/
  | refused (request : FileRequest) (client : Address)
  | serving (s : Serving) (activity : Activity)

/-- What reading from something that is no file reports. -/
def unreadableError : Error := .io "Is a directory (os error 21)"

namespace Serving

/-- The next bytes of the file, as many as a packet takes, and the file without them. -/
def chunk (s : Serving) (unread : Bytes) : Bytes × Bytes :=
  (unread.take s.request.parameters.buffer.toNat, unread.drop s.request.parameters.buffer.toNat)

/-- One more packet is handed to the channel. -/
def countSent (s : Serving) : Serving :=
  { s with statistics := { s.statistics with packetsSent := s.statistics.packetsSent + 1 } }

/-- Announces the end of the file. -/
def announceEnd (s : Serving) : Serving × Packet :=
  let number := s.eofNumber.getD s.window.current
  ({ s with eofNumber := some number }.countSent, .control .endOfFile number)

/-- Sends a packet again, if it still waits; counts it by the flag it is sent under. -/
def resend (s : Serving) (seq : Nat) (flag : Flag) : Serving × List Packet :=
  match s.window.resend seq flag with
  | .error _ => (s, [])
  | .ok packet =>
      let s := s.countSent
      let t := s.statistics
      let t := if flag = .srejData then { t with srejRetransmits := t.srejRetransmits + 1 }
        else { t with timeoutRetransmits := t.timeoutRetransmits + 1 }
      ({ s with statistics := t }, [packet])

/-- Sends the next piece of the file, or announces its end. -/
def sendNext (s : Serving) (queue : List Arrival) : Move Upload :=
  match s.unread with
  | none => .fail unreadableError
  | some unread =>
      match s.chunk unread with
      | ([], _) =>
          let (s, packet) := s.announceEnd
          .next (.serving s (.listening .farewell)) queue [packet]
      | (chunk, rest) =>
          let number := s.window.current
          match s.window.addPane chunk number with
          | (.error e, _) => .stop (.error e)
          | (.ok (), window) =>
              let t := s.statistics
              let s := { s with
                window := window
                unread := some rest
                crc := s.crc.update chunk
                statistics := { t with
                  payloadBytes := t.payloadBytes + chunk.length
                  packetsSent := t.packetsSent + 1
                  dataPackets := t.dataPackets + 1 } }
              .next (.serving s (.listening .more)) queue [⟨UInt32.ofNat number, .data, chunk⟩]

/-- Takes a packet from the client into account. -/
def feedback (s : Serving) (goal : Goal) (packet : Packet) (queue : List Arrival) : Move Upload :=
  let t := s.statistics
  match packet.flag with
  | .ack =>
      let s := { s with statistics := { t with acksReceived := t.acksReceived + 1 } }
      match s.window.ackThrough packet.seq with
      | (.ok _, window) | (.error (.error (.noSuchPane _)), window) =>
          .next (.serving { s with window := window } (.listening goal)) queue []
      | (.error e, _) => .stop (.error e)
  | .srej =>
      let s := { s with statistics := { t with srejsReceived := t.srejsReceived + 1 } }
      let (s, sent) := s.resend packet.seq .srejData
      .next (.serving s (.listening goal)) queue sent
  | .eofAck =>
      .next (.serving s (if s.eofNumber = some packet.seq then .done else .listening goal)) queue []
  | _ => .next (.serving s (.listening goal)) queue []

/-- Reads a datagram: only packets of the client count, damaged ones as such. -/
def hear (s : Serving) (goal : Goal) (datagram : Arrival) (queue : List Arrival) : Move Upload :=
  if datagram.source ≠ s.client then .next (.serving s (.listening goal)) queue []
  else
    match datagram.packet with
    | .ok packet => s.feedback goal packet queue
    | .error .corrupt =>
        let t := s.statistics
        let s := { s with statistics := { t with corruptPackets := t.corruptPackets + 1 } }
        .next (.serving s (.listening goal)) queue []
    | .error _ => .next (.serving s (.listening goal)) queue []

/-- Begins a wait, or gives the client up. -/
def beginWait (s : Serving) (goal : Goal) (queue : List Arrival) : Move Upload :=
  match s.retry.attempt with
  | .error a => .abort a
  | .ok (false, retry) => .fail (.peerSilent retry.maxTries)
  | .ok (true, retry) => .next (.serving { s with retry := retry } (.waiting goal)) queue []

/-- Goes on when all feedback has been read. -/
def heardAll (s : Serving) : Goal → Move Upload
  | .more => .next (.serving s .sending) [] []
  | .farewell => s.beginWait .farewell []
  | .room =>
      match s.window.isOpen with
      | .error a => .abort a
      | .ok true => .next (.serving s .sending) [] []
      | .ok false => s.beginWait .room []

/-- Sends again what the client seems to have missed. -/
def catchUp (s : Serving) (goal : Goal) (queue : List Arrival) : Move Upload :=
  match s.window.oldestUnacked, goal with
  | some seq, _ =>
      let (s, sent) := s.resend seq .timeoutData
      .next (.serving s (.listening goal)) queue sent
  | none, .farewell =>
      let (s, packet) := s.announceEnd
      .next (.serving s (.listening goal)) queue [packet]
  | none, _ => .next (.serving s (.listening goal)) queue []

def step (s : Serving) (queue : List Arrival) : Activity → Move Upload
  | .sending =>
      match s.window.isOpen with
      | .error a => .abort a
      | .ok true => s.sendNext queue
      | .ok false => .next (.serving s (.listening .room)) queue []
  | .listening goal =>
      match queue with
      | [] => s.heardAll goal
      | datagram :: queue => s.hear goal datagram queue
  | .waiting goal =>
      match queue with
      | [] => .wait
      | queue => .next (.serving { s with retry := s.retry.reset } (.listening goal)) queue []
  | .overdue goal => s.catchUp goal queue
  | .done => .stop (.ok { s.statistics with digest := s.crc.digest })

end Serving

namespace Upload

/-- The upload that answers a request. -/
def start (config : Config) (request : FileRequest) (client : Address) (source : Source) : Upload :=
  .opening config request client source

/-- Opens the file: the client is told whether it could be. -/
def openFile (config : Config) (request : FileRequest) (client : Address) (unread : Option Bytes)
    (queue : List Arrival) : Move Upload :=
  match SendWindow.make request.parameters.window.toNat with
  | .error e => .fail e
  | .ok window =>
      let s : Serving := {
        request := request
        client := client
        shortTimeout := config.shortTimeout
        retry := ⟨0, config.maxTries⟩
        window := window
        unread := unread }
      .next (.serving s.countSent .sending) queue [.control .fnameOk 0]

def step (u : Upload) (queue : List Arrival) : Move Upload :=
  match u with
  | .opening _ request client .missing =>
      .next (.refused request client) queue [.control .fnameBad 0]
  | .opening config request client .unreadable => openFile config request client none queue
  | .opening config request client (.contents bytes) =>
      openFile config request client (some bytes) queue
  | .refused request _ => .fail (.fileNotFound request.name)
  | .serving s activity => s.step queue activity

def expire : Upload → Upload
  | .serving s (.waiting goal) => .serving s (.overdue goal)
  | u => u

def patience : Upload → Nat
  | .serving s _ => s.shortTimeout
  | .opening config _ _ _ => config.shortTimeout
  | .refused _ _ => 0

def client : Upload → Address
  | .opening _ _ client _ => client
  | .refused _ client => client
  | .serving s _ => s.client

/-- The bytes of the file that are still to be sent, and some steps besides. -/
def effort : Upload → Nat
  | .opening _ _ _ (.contents bytes) => 2 * bytes.length + 16
  | .serving s _ => 2 * (s.unread.getD []).length + 16
  | _ => 16

def maxTries : Upload → Nat
  | .opening config _ _ _ => config.maxTries
  | .serving s _ => s.retry.maxTries
  | .refused _ _ => 0

instance : Machine Upload where
  step := step
  expire := expire
  patience := patience
  peer := client
  effort := effort
  expiries u := u.maxTries + 2

end Upload

end SelectiveReject
