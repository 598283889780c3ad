import SelectiveReject.CommandLine.Options
import SelectiveReject.Download

/-!
# The client's command line

Seven positional arguments name the file, where to keep it, the two sizes, the rate of the faults,
and the server.  Sizes are checked before the rate is read, and the rate before the port.
-/

namespace SelectiveReject.CommandLine

/-- A valid command of the client. -/
structure ClientCommand where
  config : Config
  name : String
  destination : String
  parameters : Parameters
  host : String
  port : UInt16
  deriving Repr

namespace ClientCommand

def usage : String := String.intercalate "\n" [
  "SREJ Client - Selective-Reject ARQ 파일 전송 클라이언트",
  "",
  "사용법:",
  "  srej-client <src> <dst> <window-size> <buffer-size> <error-rate> <host> <port> [OPTIONS]",
  "",
  "인자:",
  "  <src>            서버 측 원본 파일 경로 (최대 100바이트)",
  "  <dst>            로컬 저장 경로",
  "  <window-size>    윈도우 크기 (패킷 수, 1~229)",
  "  <buffer-size>    패킷당 데이터 크기 (바이트, 400~1400)",
  "  <error-rate>     송신 패킷 손실/손상 확률 (0 이상 1 미만)",
  "  <host>           서버 호스트명 또는 주소",
  "  <port>           서버 포트",
  "",
  "옵션:",
  "  --seed <N>       에러 주입 RNG 시드 (재현용)",
  "  -h, --help       이 도움말 출력",
  "",
  "로그 레벨은 RUST_LOG로 조정 (기본: info)",
  ""]

/-- Reads the positional arguments. -/
def ofOptions (options : Options) : Reading ClientCommand :=
  match options.positional with
  | [name, destination, window, buffer, rate, host, port] => do
      let window ← readSize "윈도우 크기" window
      let buffer ← readSize "버퍼 크기" buffer
      let parameters ← .ofCheck ⟨window, buffer⟩ (Parameters.check ⟨window, buffer⟩)
      let rate ← readRate rate
      let config ← readConfig rate options.seed
      let port ← readPort port
      .accepted ⟨config, name, destination, parameters, host, port⟩
  | others => .refused s!"인자 7개 필요 ({others.length}개 받음)"

/-- Reads the arguments of the client. -/
def read (args : List String) : Reading ClientCommand :=
  (scan {} args).bind ofOptions

/-- The first lines of the log. -/
def greeting (c : ClientCommand) : List Line :=
  let sizes := s!"{c.parameters.window} packets, buffer: {c.parameters.buffer} bytes"
  [⟨.info, "SREJ Client starting..."⟩,
   ⟨.info, s!"Server: {c.host}:{c.port}"⟩,
   ⟨.info, "Window: " ++ sizes ++ ", error rate: " ++ percentage c.config.rate⟩]

/-- The line of a download that failed. -/
def failure : Error → Line
  | .fileNotFound name => ⟨.error, s!"Error: file {name} not found on server"⟩
  | e => ⟨.error, "Transfer failed: " ++ e.message⟩

/-- The lines of a download that succeeded; `account` is the account of what it has cost. -/
def success (c : ClientCommand) (account : String) : List Line :=
  [⟨.info, "Saved to " ++ c.destination⟩, ⟨.info, account⟩]

/-- The exit code of a download. -/
def exitCode {α : Type} : Except Error α → UInt32
  | .ok _ => 0
  | .error _ => 1

/-- What is to be fetched, for a place that holds `before`. -/
def fetch (c : ClientCommand) (before : Option Bytes) (creatable : Bool) : Fetch :=
  ⟨c.name, c.parameters, before, creatable⟩

end ClientCommand

/-- The error of a host whose name cannot be looked up. -/
def unresolved (host : String) (port : UInt16) (reason : String) : Error :=
  .unresolvedHost s!"{host}:{port} ({reason})"

end SelectiveReject.CommandLine
