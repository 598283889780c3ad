/-!
# Reading numbers

A natural number is written as decimal digits, with an optional `+` in front, and must not exceed
the greatest value of its width.

A real number is an optional sign and then `inf`, `infinity` or `nan` in any case, or digits with
an optional point (digits on at least one side of it) and an optional exponent:

```
sign? (digits | digits "." digits? | "." digits) ("e" sign? digits)?
```

Blanks and any other character are refused.  The value is the double nearest to the decimal.
-/

namespace SelectiveReject.Decimal

/-- The digits at the start of a text, and the rest. -/
def spanDigits (text : List Char) : List Char × List Char :=
  (text.takeWhile Char.isDigit, text.dropWhile Char.isDigit)

/-- The number written by a list of digits. -/
def ofDigits (digits : List Char) : Nat :=
  digits.foldl (fun n c => n * 10 + (c.toNat - '0'.toNat)) 0

/-- Reads a natural number of at most `greatest`. -/
def readNat (greatest : Nat) (text : String) : Option Nat :=
  let digits := match text.toList with
    | '+' :: rest => rest
    | all => all
  if digits ≠ [] ∧ digits.all Char.isDigit ∧ ofDigits digits ≤ greatest then
    some (ofDigits digits)
  else none

/-- Reads an optional sign: whether it is a minus, and the rest. -/
def readSign : List Char → Bool × List Char
  | '-' :: rest => (true, rest)
  | '+' :: rest => (false, rest)
  | text => (false, text)

/-- Reads an optional exponent that ends the text. -/
def readExponent : List Char → Option Int
  | [] => some 0
  | c :: rest =>
      if c = 'e' ∨ c = 'E' then
        let (negative, rest) := readSign rest
        let (digits, rest) := spanDigits rest
        if digits ≠ [] ∧ rest = [] then
          some (if negative then -(ofDigits digits : Int) else ofDigits digits)
        else none
      else none

/-- The double nearest to `digits * 10 ^ power`.  Beyond a thousand decimal orders from the range
of doubles the value is zero or infinite at once. -/
def nearest (digits : Nat) (power : Int) : Float :=
  let order := power + (toString digits).length
  if digits = 0 ∨ order < -1400 then 0.0
  else if 1400 < order then Float.ofScientific 1 false 1400
  else Float.ofScientific digits (power < 0) power.natAbs

/-- Reads an unsigned decimal. -/
def readMagnitude (text : List Char) : Option Float :=
  let (whole, rest) := spanDigits text
  let (fraction, rest) := match rest with
    | '.' :: rest => spanDigits rest
    | rest => ([], rest)
  if whole = [] ∧ fraction = [] then none
  else
    (readExponent rest).map fun exponent =>
      nearest (ofDigits (whole ++ fraction)) (exponent - fraction.length)

/-- Reads a real number. -/
def readReal (text : String) : Option Float :=
  let (negative, rest) := readSign text.toList
  let magnitude :=
    match String.ofList (rest.map Char.toLower) with
    | "inf" | "infinity" => some (1.0 / 0.0)
    | "nan" => some (0.0 / 0.0)
    | _ => readMagnitude rest
  magnitude.map fun x => if negative then -x else x

end SelectiveReject.Decimal
