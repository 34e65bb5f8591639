import Mathlib.Algebra.Order.BigOperators.Ring.Finset

namespace Nvx.Data

/-! A pipe of a stream: what `entered` it, what `passed` through, and what it
still `held`.  It keeps the order, and loses nothing while it is `whole`. -/

structure Pipe (entered passed held : List α) (whole : Prop) : Prop where
  start : passed ++ held <+: entered
  all : whole → passed ++ held = entered

namespace Pipe

variable {entered passed held : List α}

theorem nil : Pipe ([] : List α) [] [] whole :=
  ⟨List.prefix_rfl, fun _ => rfl⟩

theorem mono (pipe : Pipe entered passed held whole) (still : next → whole) :
    Pipe entered passed held next :=
  ⟨pipe.start, fun holds => pipe.all (still holds)⟩

theorem push (pipe : Pipe entered passed held whole) (intact : whole)
    (more : List α) : Pipe (entered ++ more) passed (held ++ more) next := by
  have same : passed ++ (held ++ more) = entered ++ more := by
    rw [← List.append_assoc, pipe.all intact]
  exact ⟨same ▸ List.prefix_rfl, fun _ => same⟩

theorem pass (pipe : Pipe entered passed held whole) (count : Nat) :
    Pipe entered (passed ++ held.take count) (held.drop count) whole := by
  have same : passed ++ held.take count ++ held.drop count = passed ++ held := by
    rw [List.append_assoc, List.take_append_drop]
  constructor
  · rw [same]
    exact pipe.start
  · rw [same]
    exact pipe.all

theorem drop (pipe : Pipe entered passed held whole)
    (empty : next → whole ∧ held = []) : Pipe entered passed [] next := by
  constructor
  · rw [List.append_nil]
    exact (List.prefix_append passed held).trans pipe.start
  · intro holds
    obtain ⟨intact, nothing⟩ := empty holds
    rw [← pipe.all intact, nothing]

theorem lose (pipe : Pipe entered passed held whole) (empty : next → whole ∧ more = []) :
    Pipe (entered ++ more) passed held next := by
  constructor
  · exact pipe.start.trans (List.prefix_append entered more)
  · intro holds
    obtain ⟨intact, nothing⟩ := empty holds
    rw [nothing, List.append_nil, pipe.all intact]

theorem passed_prefix (pipe : Pipe entered passed held whole) : passed <+: entered :=
  (List.prefix_append passed held).trans pipe.start

theorem passed_eq (pipe : Pipe entered passed [] whole) (intact : whole) : passed = entered := by
  rw [← pipe.all intact, List.append_nil]

end Pipe

end Nvx.Data
