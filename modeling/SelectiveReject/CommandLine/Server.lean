import SelectiveReject.CommandLine.Options

/-!
# The server's command line

One positional argument is the rate of the faults; a second one, which may be left out, is the
port.  Both are read before the range of the rate is checked.
-/

namespace SelectiveReject.CommandLine

/-- A valid command of the server. -/
structure ServerCommand where
  config : Config
  /-- Zero stands for any free port. -/
  port : UInt16
  deriving Repr

namespace ServerCommand

def usage : String := String.intercalate "\n" [
  "SREJ Server - Selective-Reject ARQ 파일 전송 서버",
  "",
  "사용법:",
  "  srej-server <error-rate> [port] [OPTIONS]",
  "",
  "인자:",
  "  <error-rate>     송신 패킷 손실/손상 확률 (0 이상 1 미만)",
  "  [port]           수신 포트 (기본: 0 = 임의 포트)",
  "",
  "옵션:",
  "  --seed <N>       에러 주입 RNG 시드 (재현용)",
  "  -h, --help       이 도움말 출력",
  "",
  "로그 레벨은 RUST_LOG로 조정 (기본: info)",
  ""]

/-- Reads the rate and the port, then checks the settings. -/
def ofTexts (rate : String) (port : Option String) (seed : Option UInt64) :
    Reading ServerCommand := do
  let rate ← readRate rate
  let port ← match port with
    | some port => readPort port
    | none => .accepted 0
  let config ← readConfig rate seed
  .accepted ⟨config, port⟩

/-- Reads the positional arguments. -/
def ofOptions (options : Options) : Reading ServerCommand :=
  match options.positional with
  | [rate] => ofTexts rate none options.seed
  | [rate, port] => ofTexts rate (some port) options.seed
  | _ => .refused "인자 개수가 맞지 않음"

/-- Reads the arguments of the server. -/
def read (args : List String) : Reading ServerCommand :=
  (scan {} args).bind ofOptions

/-- The lines of the log before the socket is bound. -/
def greeting (c : ServerCommand) : List Line :=
  [⟨.info, "SREJ Server starting..."⟩,
   ⟨.info, "Error rate: " ++ percentage c.config.rate⟩] ++
  c.config.seed.toList.map fun seed => ⟨.info, s!"Seed: {seed}"⟩

end ServerCommand

end SelectiveReject.CommandLine
