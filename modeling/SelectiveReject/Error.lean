import SelectiveReject.Decimal.Shortest

/-!
# Ways to fail

An `Error` is reported to the caller, who may handle it; `Error.message` is its text.  An `Abort`
is a broken rule that nobody handles: a counter leaves its word, a probability is none, or there is
no network to set peers up on.  An operation that can end in either way ends with a `Stop`.
-/

namespace SelectiveReject

/-- Why a file name is refused. -/
inductive NameFault where
  | empty
  | tooLong
  | containsNul
  | payloadTooShort
  | notUtf8
  deriving DecidableEq, Repr

def NameFault.message : NameFault → String
  | .empty => "비어 있음"
  | .tooLong => "100바이트 초과"
  | .containsNul => "NUL 문자 포함"
  | .payloadTooShort => "페이로드가 너무 짧음"
  | .notUtf8 => "UTF-8 아님"

/-- The errors of the protocol. -/
inductive Error where
  /-- The network or the file system refused. -/
  | io (text : String)
  | payloadTooLarge (length limit : Nat)
  | corrupt
  | truncated (length : Nat)
  | unknownFlag (value : UInt8)
  | invalidWindow (size : Nat)
  | invalidBuffer (size : Nat)
  | invalidRate (rate : Float)
  | invalidName (fault : NameFault)
  | windowClosed (lower current : Nat)
  | outOfOrder (expected got : Nat)
  | slotOccupied (seq : Nat)
  | noSuchPane (seq : Nat)
  | invalidSlide (lower newLower current : Nat)
  /-- The number is outside `[low, high)`. -/
  | outsideWindow (seq low high : Nat)
  | fileNotFound (name : String)
  | peerSilent (tries : Nat)
  | receiveTimeout (seconds : Nat)
  | unresolvedHost (text : String)
  deriving DecidableEq, Repr

def Error.message : Error → String
  | .io text => "IO 에러: " ++ text
  | .payloadTooLarge length limit => s!"페이로드 크기 초과: {length} > {limit}"
  | .corrupt => "체크섬 오류 (CRC_ERROR)"
  | .truncated length => s!"패킷이 너무 짧음: {length} bytes"
  | .unknownFlag value => s!"알 수 없는 플래그: {value}"
  | .invalidWindow size => s!"유효하지 않은 윈도우 크기: {size} (허용 범위 1~229)"
  | .invalidBuffer size => s!"유효하지 않은 버퍼 크기: {size} (허용 범위 400~1400)"
  | .invalidRate rate =>
      "유효하지 않은 에러율: " ++ Decimal.shortest rate ++ " (허용 범위 0 이상 1 미만)"
  | .invalidName fault => "유효하지 않은 파일명: " ++ fault.message
  | .windowClosed lower current => s!"윈도우가 닫혀 있음: lower={lower}, current={current}"
  | .outOfOrder expected got => s!"순서가 맞지 않는 pane: expected {expected}, got {got}"
  | .slotOccupied seq => s!"슬롯이 아직 사용 중: seq={seq}"
  | .noSuchPane seq => s!"pane 없음: seq={seq}"
  | .invalidSlide lower newLower current =>
      s!"유효하지 않은 슬라이드: lower={lower}, new_lower={newLower}, current={current}"
  | .outsideWindow seq low high => s!"수신 윈도우 범위 밖: seq={seq}, 범위 [{low}, {high})"
  | .fileNotFound name => "파일을 찾을 수 없음: " ++ name
  | .peerSilent tries => s!"상대방 응답 없음 ({tries}회 재시도 후 종료)"
  | .receiveTimeout seconds => s!"수신 대기 시간 초과 ({seconds}초 동안 패킷 없음)"
  | .unresolvedHost text => "주소 변환 실패: " ++ text

/-- Broken rules that nobody handles. -/
inductive Abort where
  /-- A counter would exceed the greatest value of its word. -/
  | overflow
  /-- A counter would fall below zero. -/
  | underflow
  /-- A probability is above one or no number. -/
  | badProbability
  /-- There is no network on which scripted peers could be set up. -/
  | noNetwork
  deriving DecidableEq, Repr

/-- How an operation ends that does not succeed. -/
inductive Stop where
  | error (e : Error)
  | abort (a : Abort)
  deriving DecidableEq, Repr

end SelectiveReject
