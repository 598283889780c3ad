import SelectiveReject.ChaCha
import SelectiveReject.Config

/-!
# Faults added to what is sent

A fault model decides for each packet whether it is lost, has one of its bits turned over, or
leaves as it is: lost with the given rate, and if it is not, damaged with the same rate.
A packet without bytes is left alone, and at a rate of zero or below every packet is; no random
number is drawn then.
-/

namespace SelectiveReject

/-- What happens to one packet. -/
inductive Fault where
  | none
  | dropped
  | flipped (bit : Nat)
  deriving DecidableEq, Repr

structure FaultModel (γ : Type := Generator) where
  rate : Float
  generator : γ
  deriving Repr

namespace FaultModel

/-- The model of a rate, with the given seed or else with `entropy`. -/
def make (rate : Float) (seed : Option UInt64) (entropy : UInt64 := 0) : FaultModel :=
  ⟨rate, .ofSeed (seed.getD entropy)⟩

def ofConfig (config : Config) (entropy : UInt64 := 0) : FaultModel :=
  make config.rate config.seed entropy

/-- No faults. -/
def disabled : FaultModel := make 0.0 (some 0)

/-- Decides about a packet of `length` bytes. -/
def sample {γ : Type} [Randomness γ] (m : FaultModel γ) (length : Nat) :
    Except Abort Fault × FaultModel γ :=
  if m.rate ≤ 0.0 ∨ length = 0 then (.ok .none, m)
  else
    match Randomness.chance m.generator m.rate with
    | .none => (.error .badProbability, m)
    | some (true, g) => (.ok .dropped, { m with generator := g })
    | some (false, g) =>
        match Randomness.chance g m.rate with
        | .none => (.error .badProbability, { m with generator := g })
        | some (false, g) => (.ok .none, { m with generator := g })
        | some (true, g) =>
            if limit64 ≤ length * 8 then (.error .overflow, { m with generator := g })
            else
              let (bit, g) := Randomness.below g (length * 8)
              (.ok (.flipped bit), { m with generator := g })

end FaultModel

end SelectiveReject
