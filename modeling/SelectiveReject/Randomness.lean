import SelectiveReject.Bytes

/-!
# Random events and numbers

A source of randomness yields one number of 64 bits after the other.  `chance` and `below` turn its
draws into events of a given probability and into uniform numbers below a bound.
-/

namespace SelectiveReject

/-- Random draws of 64 bits. -/
class Randomness (γ : Type) where
  /-- The next draw, and the source behind it. -/
  draw : γ → UInt64 × γ

namespace Randomness

variable {γ : Type} [Randomness γ]

/-- An event of the given probability, which must be at least zero and below one: a draw falls
below that part of the range of all draws.  The certain event needs no draw. -/
def chance (g : γ) (probability : Float) : Option (Bool × γ) :=
  if 0.0 ≤ probability ∧ probability < 1.0 then
    let (v, g) := draw g
    some (v < (probability * 18446744073709551616.0).toUInt64, g)
  else if probability == 1.0 then some (true, g)
  else none

/-- The greatest low half of a product with `bound` for which the draw is kept.  Draws above it are
thrown away, so that every result has the same number of draws. -/
def acceptance (bound : Nat) : Nat := (bound <<< (63 - bound.log2)) - 1

/-- Takes draws until one is kept, at most `tries` times. -/
def search (g : γ) (bound : Nat) : Nat → Nat × γ
  | 0 => (0, g)
  | tries + 1 =>
      let (v, g) := draw g
      let product := v.toNat * bound
      if product % limit64 ≤ acceptance bound then (product / limit64, g) else search g bound tries

/-- A number below `bound`, every one as likely as the others.  At least every second draw is
kept; a source of good draws is never asked for as many as the search would take. -/
def below (g : γ) (bound : Nat) : Nat × γ := search g bound 4611686018427387904

theorem search_lt (g : γ) (bound tries : Nat) (h : 0 < bound) : (search g bound tries).1 < bound := by
  induction tries generalizing g with
  | zero => simpa [search] using h
  | succ tries ih =>
      simp only [search]
      split
      · have := (draw g).1.toNat_lt
        apply Nat.div_lt_of_lt_mul
        exact Nat.mul_lt_mul_of_pos_right this h
      · exact ih _

theorem below_lt (g : γ) (bound : Nat) (h : 0 < bound) : (below g bound).1 < bound :=
  search_lt g bound _ h

end Randomness

end SelectiveReject
