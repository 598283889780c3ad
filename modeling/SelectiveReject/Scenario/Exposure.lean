import SelectiveReject.Scenario.Network

/-!
# Strangers on the network

A network is open to everybody: at any time a datagram with any bytes may arrive at any address, under
any name.  `Exposed` are the states that a network can come to among strangers.  What they send is not
put on the wire, since whatever the wire could do to it they can do themselves.
-/

namespace SelectiveReject.Scenario

/-- What happens next where strangers send, too. -/
inductive Occasion where
  | event (event : Event)
  | stranger (datagram : Delivery)

namespace Network

def meet (a : Addresses) (n : Network) : Occasion → Option Network
  | .event event => n.act a event
  | .stranger datagram => some (n.arrive a datagram)

/-- Lets one occasion come after the other. -/
def meetAll (a : Addresses) (n : Network) : List Occasion → Option Network
  | [] => some n
  | occasion :: rest => (n.meet a occasion).bind fun n => n.meetAll a rest

/-- The states that a network can come to among strangers. -/
inductive Exposed (a : Addresses) (n : Network) : Network → Prop
  | refl : Exposed a n n
  | step {now next : Network} (occasion : Occasion) (h : Exposed a n now)
      (hmeet : now.meet a occasion = some next) : Exposed a n next

/-- A state that a list of occasions leads to is one that the network can come to. -/
theorem exposed_of_meetAll {a : Addresses} {n now next : Network} {occasions : List Occasion}
    (h : Exposed a n now) (hall : now.meetAll a occasions = some next) : Exposed a n next := by
  induction occasions generalizing now with
  | nil =>
      rw [meetAll, Option.some.injEq] at hall
      subst hall
      exact h
  | cons occasion rest ih =>
      rw [meetAll, Option.bind_eq_some_iff] at hall
      obtain ⟨between, hmeet, hrest⟩ := hall
      exact ih (.step occasion h hmeet) hrest

end Network

end SelectiveReject.Scenario
