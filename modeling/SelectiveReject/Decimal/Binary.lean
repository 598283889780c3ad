/-!
# Doubles as exact numbers

A finite double is `± coefficient * 2 ^ exponent` with a natural coefficient.  Printing and
rounding work on this exact value, never on the machine's own text of it.
-/

namespace SelectiveReject.Decimal

/-- The exact value of a finite double, up to its sign. -/
structure Magnitude where
  coefficient : Nat
  exponent : Int
  deriving DecidableEq, Repr

/-- What a double is: a signed exact value, a signed infinity, or no number. -/
inductive Value where
  | finite (negative : Bool) (magnitude : Magnitude)
  | infinite (negative : Bool)
  | notANumber
  deriving DecidableEq, Repr

/-- The bit above the 52 bits of fraction, which is set in all but the smallest doubles. -/
def hiddenBit : Nat := 4503599627370496

/-- The value that the bits of a double encode: a sign, eleven bits of exponent, 52 of fraction. -/
def Value.ofBits (bits : Nat) : Value :=
  let negative := bits / 9223372036854775808 % 2 = 1
  let field : Nat := bits / hiddenBit % 2048
  let fraction := bits % hiddenBit
  if field = 2047 then
    if fraction = 0 then .infinite negative else .notANumber
  else if field = 0 then .finite negative ⟨fraction, -1074⟩
  else .finite negative ⟨hiddenBit + fraction, (field : Int) - 1075⟩

/-- The value of a double. -/
def Value.ofFloat (x : Float) : Value :=
  .ofBits x.toBits.toNat

/-- The magnitude times `scale` and then times `10 ^ shift`, as numerator and denominator. -/
def Magnitude.ratio (v : Magnitude) (scale : Nat) (shift : Int) : Nat × Nat :=
  (v.coefficient * scale * Nat.pow 2 v.exponent.toNat * Nat.pow 10 shift.toNat,
   Nat.pow 2 (-v.exponent).toNat * Nat.pow 10 (-shift).toNat)

/-- The text of a number `digits / 10 ^ places`, with exactly `places` digits after the point and
no point when there are none. -/
def positional (digits places : Nat) : String :=
  let whole := toString (digits / Nat.pow 10 places)
  if places = 0 then whole
  else
    let fraction := toString (digits % Nat.pow 10 places)
    whole ++ "." ++ String.ofList (List.replicate (places - fraction.length) '0') ++ fraction

/-- The texts of what is not a finite number, and the sign in front of what is. -/
def Value.render (finite : Magnitude → String) : Value → String
  | .finite negative v => (if negative then "-" else "") ++ finite v
  | .infinite negative => if negative then "-inf" else "inf"
  | .notANumber => "NaN"

end SelectiveReject.Decimal
