import Mathlib.Algebra.Order.BigOperators.Ring.Finset

namespace Nvx.Data

/-! Computations that change a state and can fail.  What a failed one changed
stays changed. -/

def Attempt (State Error Value : Type) : Type :=
  State → Except Error Value × State

namespace Attempt

variable {State Error Failure First Value Item : Type}

instance : Monad (Attempt State Error) where
  pure value := fun state => (.ok value, state)
  bind first next := fun state =>
    match first state with
    | (.ok value, state) => next value state
    | (.error error, state) => (.error error, state)

def get : Attempt State Error State :=
  fun state => (.ok state, state)

@[simp] theorem bind_apply (first : Attempt State Error First)
    (next : First → Attempt State Error Value) (state : State) :
    (first >>= next) state =
      match first state with
      | (.ok value, state) => next value state
      | (.error error, state) => (.error error, state) :=
  rfl

/-- From the state, the attempt leads to a kept state, and what it returns there
satisfies `returns`. -/
def Leaves (kept : State → Prop) (returns : Value → State → Prop)
    (attempt : Attempt State Error Value) (state : State) : Prop :=
  kept (attempt state).2 ∧ ∀ value, (attempt state).1 = .ok value → returns value (attempt state).2

namespace Leaves

variable {returns : Value → State → Prop}

theorem pure (keeps : kept state) (returned : returns value state) :
    Leaves kept returns (Pure.pure value : Attempt State Error Value) state := by
  refine ⟨keeps, ?_⟩
  rintro _ ⟨⟩
  exact returned

theorem bind {first : Attempt State Error First} (leaves : Leaves kept between first state)
    (later : ∀ value middle, kept middle → between value middle →
      Leaves kept returns (next value) middle) :
    Leaves kept returns (first >>= next) state := by
  obtain ⟨keeps, returned⟩ := leaves
  unfold Leaves
  rw [bind_apply]
  rcases result : first state with ⟨outcome, middle⟩
  rw [result] at keeps returned
  cases outcome with
  | error error =>
    refine ⟨keeps, ?_⟩
    rintro _ ⟨⟩
  | ok value => exact later value middle keeps (returned value rfl)

theorem mono {attempt : Attempt State Error Value} (leaves : Leaves kept returns attempt state)
    (keeps : ∀ next, kept next → better next)
    (weakens : ∀ value next, kept next → returns value next →
      weaker value next) : Leaves better weaker attempt state :=
  ⟨keeps _ leaves.1, fun value returned =>
    weakens value _ leaves.1 (leaves.2 value returned)⟩

end Leaves

end Attempt

end Nvx.Data
