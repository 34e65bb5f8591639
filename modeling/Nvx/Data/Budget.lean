import Mathlib.Algebra.Order.BigOperators.Ring.Finset

namespace Nvx.Data

/-! Computations that fail once what they have spent exceeds a budget. -/

variable {Error Result Later State Item : Type}

/-- Where `before` is already spent, the run reaches the result, which brings the
sum to `after`, and fails under every budget that this exceeds. -/
structure Spends (failure : Error) (before after : Nat)
    (run : Nat → Except Error Result) (result : Result) : Prop where
  grows : before ≤ after
  result : ∀ budget, before ≤ budget →
    run budget = if after ≤ budget then .ok result else .error failure

theorem spends_ok (failure : Error) (before : Nat) (result : Result) :
    Spends failure before before (fun _ => .ok result) result :=
  ⟨Nat.le_refl before, fun _ fits => (if_pos fits).symm⟩

theorem Spends.from_spent {failure : Error} {result : Result}
    (spends : Spends failure before after run result) (more : before ≤ spent)
    (within : spent ≤ after) : Spends failure spent after run result :=
  ⟨within, fun budget fits => spends.result budget (Nat.le_trans more fits)⟩

theorem Spends.bind {failure : Error} {result : Result} {next : Nat → Result → Except Error Later}
    (first : Spends failure before middle run result)
    (second : Spends failure middle after (fun budget => next budget result) later) :
    Spends failure before after (fun budget => run budget >>= next budget)
      later := by
  refine ⟨Nat.le_trans first.grows second.grows, fun budget fits => ?_⟩
  have grows := second.grows
  rw [first.result budget fits]
  split
  · rename_i within
    exact second.result budget within
  · rename_i isOver
    rw [if_neg (by omega)]
    rfl

theorem Spends.map {failure : Error} {result : Result}
    (spends : Spends failure before after run result) (change : Result → Later) :
    Spends failure before after (fun budget => run budget >>= fun value => pure (change value))
      (change result) :=
  spends.bind (spends_ok failure after (change result))

theorem Spends.rest {failure : Error} {result : Result}
    (spends : Spends failure 0 spent run result) (before : Nat) :
    Spends failure before (before + spent) (fun budget => run (budget - before)) result := by
  refine ⟨Nat.le_add_right before spent, fun budget fits => ?_⟩
  rw [spends.result _ (Nat.zero_le _)]
  simp only [Nat.le_sub_iff_add_le fits, Nat.add_comm spent before]

theorem spends_foldlM {failure : Error} {cost : State → Nat}
    {step : Nat → State → Item → Except Error State}
    (steps : ∀ state item, Spends failure (cost state) (cost (next state item))
      (fun budget => step budget state item) (next state item))
    (items : List Item) (state : State) :
    Spends failure (cost state) (cost (items.foldl next state))
      (fun budget => items.foldlM (step budget) state)
      (items.foldl next state) := by
  induction items generalizing state with
  | nil => exact spends_ok failure (cost state) state
  | cons item items induction =>
    simp only [List.foldlM_cons, List.foldl_cons]
    exact (steps state item).bind (induction (next state item))

end Nvx.Data
