import SelectiveReject.Decimal.Binary

/-!
# The shortest text of a double

The text has the fewest significant digits that read back as the same double, and among those the
digits nearest to its exact value; of two equally near ones the greater.  It is always positional:
no exponent is ever written, and no point when the value is whole.

## Algorithm

The reals that round to a double form an interval around it, ends included when its coefficient is
even.  For `n = 1, 2, …, 17` the two neighbours of the value among the numbers with `n` digits are
tested against that interval, in exact arithmetic; the first `n` with a hit wins.
-/

namespace SelectiveReject.Decimal

/-- The reals that read as the double lie between `(4 c - low) / 4` and `(4 c + 2) / 4` units of
its exponent, where `c` is its coefficient.  Below a power of two the neighbours are twice as
dense. -/
def Magnitude.lowerGap (v : Magnitude) : Nat :=
  if v.coefficient = hiddenBit ∧ -1074 < v.exponent then 1 else 2

/-- Whether `digits * 10 ^ power` reads back as the double. -/
def Magnitude.readsBack (v : Magnitude) (digits : Nat) (power : Int) : Bool :=
  let unit : Magnitude := ⟨1, v.exponent⟩
  let (num, den) := unit.ratio 1 (-power)
  let scaled := 4 * digits * den
  let low := (4 * v.coefficient - v.lowerGap) * num
  let high := (4 * v.coefficient + 2) * num
  if v.coefficient % 2 = 0 then low ≤ scaled && scaled ≤ high
  else low < scaled && scaled < high

/-- The least power of ten above the positive number `num / den`, as its exponent. -/
def decimalOrder (num den : Nat) : Int :=
  if den ≤ num then ((toString (num / den)).length : Int)
  else
    -- the number is at most `10 ^ -zeros`, and more than a tenth of that
    let zeros := (toString (den / num)).length - 1
    if den ≤ num * Nat.pow 10 zeros then 1 - (zeros : Int) else -(zeros : Int)

/-- The number with at most `count` digits that reads back as the double and is nearest to it, as
digits and a power of ten. -/
def Magnitude.candidate (v : Magnitude) (top : Int) (count : Nat) : Option (Nat × Int) :=
  let power := top - count
  let (num, den) := v.ratio 1 (-power)
  let below := num / den
  let remainder := num % den
  let low := v.readsBack below power
  let high := v.readsBack (below + 1) power
  if low && (!high || 2 * remainder < den) then some (below, power)
  else if high then some (below + 1, power)
  else none

/-- The digits and the power of ten of the shortest decimal that reads back as the double. -/
def Magnitude.shortest (v : Magnitude) : Nat × Int :=
  if v.coefficient = 0 then (0, 0)
  else
    let (num, den) := v.ratio 1 0
    let top := decimalOrder num den
    ((List.range 17).findSome? fun n => v.candidate top (n + 1)).getD (num / den, 0)

/-- Zeros at the end of the digits go into the power of ten. -/
def trimZeros (digits : Nat) (power : Int) : Nat × Int :=
  if h : digits ≠ 0 ∧ digits % 10 = 0 then trimZeros (digits / 10) (power + 1)
  else (digits, power)
termination_by digits
decreasing_by omega

/-- The shortest positional text of a double. -/
def shortest (x : Float) : String :=
  (Value.ofFloat x).render fun v =>
    let (digits, power) := v.shortest
    let (digits, power) := trimZeros digits power
    positional (digits * Nat.pow 10 power.toNat) (-power).toNat

end SelectiveReject.Decimal
