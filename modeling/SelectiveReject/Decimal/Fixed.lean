import SelectiveReject.Decimal.Binary

/-!
# A double with a fixed number of places

The exact value of the double is rounded to the given number of places after the point, a half
going to the even neighbour.  The sign of the double is written even when every digit is zero.
-/

namespace SelectiveReject.Decimal

/-- The natural number nearest to `num / den`; a half goes to the even neighbour. -/
def roundDiv (num den : Nat) : Nat :=
  let floor := num / den
  let twice := 2 * (num % den)
  if den < twice ∨ (den = twice ∧ floor % 2 = 1) then floor + 1 else floor

/-- The double's text with `places` digits after the point. -/
def fixed (places : Nat) (x : Float) : String :=
  (Value.ofFloat x).render fun v =>
    let (num, den) := v.ratio 1 places
    positional (roundDiv num den) places

end SelectiveReject.Decimal
