import Mathlib.Algebra.Order.BigOperators.Ring.Finset
import Mathlib.Data.List.DropRight

namespace Nvx.Data

/-! Histories, the latest entry last. -/

def Throughout (law : List Entry → Entry → Prop) (history : List Entry) : Prop :=
  ∀ earlier entry later, history = earlier ++ entry :: later → law earlier entry

theorem throughout_nil (law : List Entry → Entry → Prop) : Throughout law [] := by
  intro earlier entry later split
  simp at split

theorem Throughout.concat {law : List Entry → Entry → Prop} (lawful : Throughout law history)
    (last : law history entry) : Throughout law (history ++ [entry]) := by
  intro earlier found later split
  rcases List.eq_nil_or_concat later with rfl | ⟨later, final, rfl⟩
  · obtain ⟨rfl, same⟩ := List.append_inj' split rfl
    obtain rfl := List.singleton_inj.mp same
    exact last
  · rw [List.concat_eq_append, ← List.cons_append, ← List.append_assoc] at split
    obtain ⟨same, _⟩ := List.append_inj' split rfl
    exact lawful earlier found later same

theorem throughout_concat {law : List Entry → Entry → Prop} :
    Throughout law (history ++ [entry]) ↔ Throughout law history ∧ law history entry := by
  constructor
  · intro lawful
    refine ⟨?_, lawful history entry [] rfl⟩
    rintro earlier found later rfl
    exact lawful earlier found (later ++ [entry]) (by simp)
  · rintro ⟨lawful, last⟩
    exact lawful.concat last

theorem Throughout.mono {law weaker : List Entry → Entry → Prop} (lawful : Throughout law history)
    (weakens : ∀ earlier entry, law earlier entry → weaker earlier entry) :
    Throughout weaker history := by
  intro earlier entry later split
  exact weakens earlier entry (lawful earlier entry later split)

/-- A transitive relation that holds between neighbours holds between any two
entries. -/
theorem Throughout.pairwise {Before : Entry → Entry → Prop}
    (ordered : Throughout (fun earlier entry =>
      ∀ previous ∈ earlier.getLast?, Before previous entry) history)
    (transitive : ∀ {first second third}, Before first second →
      Before second third → Before first third) :
    history.Pairwise Before := by
  have : Trans Before Before Before := ⟨transitive⟩
  rw [← List.isChain_iff_pairwise]
  induction history using List.reverseRecOn with
  | nil => exact .nil
  | append_singleton history entry induction =>
    obtain ⟨earlier, last⟩ := throughout_concat.mp ordered
    rw [List.isChain_append]
    refine ⟨induction earlier, .singleton entry, ?_⟩
    intro previous isPrevious next isNext
    obtain rfl := Option.some.inj isNext
    exact last previous isPrevious

def since (marked : Entry → Bool) (history : List Entry) : List Entry :=
  history.rtakeWhile fun entry => !marked entry

theorem since_concat (marked : Entry → Bool) (history : List Entry) (entry : Entry) :
    since marked (history ++ [entry]) =
      if marked entry then [] else since marked history ++ [entry] := by
  unfold since
  split
  · rename_i here
    exact List.rtakeWhile_concat_neg _ _ _ (by simp [here])
  · rename_i unmarked
    exact List.rtakeWhile_concat_pos _ _ _ (by simp [unmarked])

end Nvx.Data
