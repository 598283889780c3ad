import SelectiveReject.Bytes

/-!
# Hexadecimal text

Numbers and byte strings in lower-case hexadecimal.
-/

namespace SelectiveReject.Hexadecimal

/-- The number in at least `width` digits. -/
def ofNat (width n : Nat) : String :=
  let digits := Nat.toDigits 16 n
  String.ofList (List.replicate (width - digits.length) '0' ++ digits)

/-- Two digits for each byte. -/
def ofBytes (bytes : Bytes) : String :=
  String.ofList (bytes.flatMap fun b =>
    [Nat.digitChar (b.toNat / 16), Nat.digitChar (b.toNat % 16)])

/-- The value of a digit. -/
def digit? (c : Char) : Option Nat :=
  if '0' ≤ c ∧ c ≤ '9' then some (c.toNat - '0'.toNat)
  else if 'a' ≤ c ∧ c ≤ 'f' then some (c.toNat - 'a'.toNat + 10)
  else if 'A' ≤ c ∧ c ≤ 'F' then some (c.toNat - 'A'.toNat + 10)
  else none

/-- The bytes that pairs of digits stand for; anything else is refused. -/
def toBytes? (text : String) : Option Bytes :=
  let rec pairs (bytes : Bytes) : List Char → Option Bytes
    | [] => some bytes.reverse
    | [_] => none
    | a :: b :: rest =>
        match digit? a, digit? b with
        | some high, some low => pairs (UInt8.ofNat (high * 16 + low) :: bytes) rest
        | _, _ => none
  pairs [] text.toList

end SelectiveReject.Hexadecimal
