import Mathlib.Algebra.Order.BigOperators.Ring.Finset

namespace Nvx.Data

/-! Credit between a sender and a receiver that are joined by a channel each
way: the units that the receiver opened are the sender's credit, the grants on
their way to the sender, or the cost of the data on its way to the receiver. -/

/-- What the receiver opened covers the rest, and equals it while both sides are
`live`. -/
structure Balanced (live : Prop) (credit grants costs opened : Nat) : Prop where
  covered : credit + grants + costs ≤ opened
  settled : live → credit + grants + costs = opened

namespace Balanced

theorem zero : Balanced live 0 0 0 0 := ⟨Nat.le_refl _, fun _ => rfl⟩

/-- Units that move between the accounts keep the balance. -/
theorem move (balanced : Balanced live credit grants costs opened) (credit' grants' costs' : Nat)
    (same : credit' + grants' + costs' + opened = credit + grants + costs + opened') :
    Balanced live credit' grants' costs' opened' where
  covered := by
    have covered := balanced.covered
    omega
  settled := fun alive => by
    have settled := balanced.settled alive
    omega

theorem grant (balanced : Balanced live credit grants costs opened) (units : Nat) :
    Balanced live credit (grants + units) costs (opened + units) :=
  balanced.move _ _ _ (by omega)

theorem granted {units : Nat} (balanced : Balanced live credit (units + grants) costs opened) :
    Balanced live (credit + units) grants costs opened :=
  balanced.move _ _ _ (by omega)

theorem spend {cost : Nat} (balanced : Balanced live credit grants costs opened)
    (affordable : cost ≤ credit) : Balanced live (credit - cost) grants (costs + cost) opened :=
  balanced.move _ _ _ (by omega)

theorem charge {cost : Nat} (balanced : Balanced live credit grants (cost + costs) opened) :
    Balanced live credit grants costs (opened - cost) := by
  have covered := balanced.covered
  exact balanced.move _ _ _ (by omega)

/-- A message that a side which is not live ignores takes its units with it. -/
theorem ignore {next : Prop} {fewerGrants fewerCosts : Nat}
    (balanced : Balanced live credit grants costs opened)
    (lessGrants : fewerGrants ≤ grants) (lessCosts : fewerCosts ≤ costs)
    (dead : ¬ next) : Balanced next credit fewerGrants fewerCosts opened where
  covered := by
    have covered := balanced.covered
    omega
  settled := fun alive => absurd alive dead

theorem mono {next : Prop} (balanced : Balanced live credit grants costs opened)
    (still : next → live) : Balanced next credit grants costs opened where
  covered := balanced.covered
  settled := fun alive => balanced.settled (still alive)

theorem grant_le (balanced : Balanced live credit (units + grants) costs opened) :
    credit + units ≤ opened := by
  have covered := balanced.covered
  omega

theorem cost_le (balanced : Balanced live credit grants (cost + costs) opened) : cost ≤ opened := by
  have covered := balanced.covered
  omega

end Balanced

end Nvx.Data
