import Mathlib.Algebra.Order.BigOperators.Ring.Finset
namespace Nvx.Data

/-! A channel's messages, as its reader may take them: `next` relates what the
reader knows before a message to what it knows after it. -/

inductive Reads (next : View → Message → View → Prop) : View → List Message → View → Prop
  | nil (view : View) : Reads next view [] view
  | cons {view middle last : View} {message : Message} {rest : List Message}
      (first : next view message middle) (others : Reads next middle rest last) :
      Reads next view (message :: rest) last

namespace Reads

variable {next : View → Message → View → Prop}

theorem append (reads : Reads next view first middle) (others : Reads next middle second last) :
    Reads next view (first ++ second) last := by
  induction reads with
  | nil view => exact others
  | cons now _ induction => exact .cons now (induction others)

theorem singleton (now : next view message last) : Reads next view [message] last :=
  .cons now (.nil last)

theorem eq_of_nil (reads : Reads next view [] last) : last = view := by
  cases reads
  rfl

theorem exists_of_cons (reads : Reads next view (message :: rest) last) :
    ∃ middle, next view message middle ∧ Reads next middle rest last := by
  cases reads with
  | cons first others => exact ⟨_, first, others⟩

theorem eq_nil_of_stuck (reads : Reads next view messages last)
    (stuck : ∀ message middle, ¬ next view message middle) : messages = [] := by
  cases reads with
  | nil => rfl
  | cons now _ => exact absurd now (stuck _ _)

end Reads

end Nvx.Data
