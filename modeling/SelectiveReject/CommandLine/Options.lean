import SelectiveReject.Decimal.Reading
import SelectiveReject.Decimal.Fixed
import SelectiveReject.Bytes
import SelectiveReject.Config

/-!
# Reading arguments

Arguments are read from left to right.  `--seed` takes the argument after it, whatever that is; if
it is given twice the later one counts.  `-h` and `--help` end the reading at once.  Everything
else is a positional argument, and the positional arguments keep their order.
-/

namespace SelectiveReject.CommandLine

/-- The outcome of reading arguments. -/
inductive Reading (α : Type) where
  /-- The usage is asked for. -/
  | help
  /-- The arguments are refused, for the reason given. -/
  | refused (reason : String)
  | accepted (value : α)
  deriving DecidableEq, Repr

namespace Reading

variable {α β : Type}

def bind (r : Reading α) (f : α → Reading β) : Reading β :=
  match r with
  | .help => .help
  | .refused reason => .refused reason
  | .accepted value => f value

/-- The value of a check whose error is the reason to refuse. -/
def ofCheck (value : α) : Except Error Unit → Reading α
  | .ok () => .accepted value
  | .error e => .refused e.message

/-- The value that an argument was read as; `what` is what it should have been. -/
def ofArgument (what text : String) : Option α → Reading α
  | some value => .accepted value
  | none => .refused ("유효한 " ++ what ++ " 아님: " ++ text)

instance : Monad Reading where
  pure := .accepted
  bind := bind

end Reading

/-- Positional arguments and options. -/
structure Options where
  positional : List String := []
  seed : Option UInt64 := none
  deriving DecidableEq, Repr

/-- Reads a 64-bit seed. -/
def readSeed (text : String) : Reading UInt64 :=
  .ofArgument "시드" text ((Decimal.readNat (limit64 - 1) text).map UInt64.ofNat)

/-- Reads a 32-bit size. -/
def readSize (what text : String) : Reading UInt32 :=
  .ofArgument what text ((Decimal.readNat (limit32 - 1) text).map UInt32.ofNat)

/-- Reads an error rate; whether it is in range is checked with the settings. -/
def readRate (text : String) : Reading Float :=
  .ofArgument "에러율" text (Decimal.readReal text)

/-- Reads a 16-bit port. -/
def readPort (text : String) : Reading UInt16 :=
  .ofArgument "포트" text ((Decimal.readNat (limit16 - 1) text).map UInt16.ofNat)

/-- Reads the arguments that follow those already in `options`. -/
def scan (options : Options) : List String → Reading Options
  | [] => .accepted options
  | "--seed" :: rest =>
      match rest with
      | [] => .refused "--seed 값 필요"
      | value :: rest =>
          match readSeed value with
          | .accepted seed => scan { options with seed := some seed } rest
          | .refused reason => .refused reason
          | .help => .help
  | "-h" :: _ => .help
  | "--help" :: _ => .help
  | other :: rest => scan { options with positional := options.positional ++ [other] } rest

/-- Settings with the given rate and seed, if the rate is in range. -/
def readConfig (rate : Float) (seed : Option UInt64) : Reading Config :=
  let config : Config := { Config.lossy rate with seed := seed }
  .ofCheck config config.check

/-- What is printed when arguments are refused. -/
def refusal (reason usage : String) : String := "error: " ++ reason ++ "\n\n" ++ usage

/-- How grave a line of the log is. -/
inductive Level where
  | info
  | error
  deriving DecidableEq, Repr

def Level.name : Level → String
  | .info => "INFO"
  | .error => "ERROR"

/-- A line of the log. -/
structure Line where
  level : Level
  text : String
  deriving DecidableEq, Repr

def Line.render (l : Line) : String := l.level.name ++ " " ++ l.text

/-- A rate as a percentage with one place. -/
def percentage (rate : Float) : String := Decimal.fixed 1 (rate * 100.0) ++ "%"

end SelectiveReject.CommandLine
