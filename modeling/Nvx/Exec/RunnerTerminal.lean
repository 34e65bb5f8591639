import Nvx.Exec.RunnerGrammar

namespace Nvx.Exec.Runner

open Nvx.Data

/-! The part of a run before its terminal outcome. -/

def untilTerminal (trace : List Event) : List Event :=
  trace.takeWhile fun event => !(sent event).any Message.isTerminal

theorem machine_step (runner : Runner) (call : Call) :
    machine.step runner call = runner.step call := rfl

theorem messages_concat (trace : List Event) (event : Event) :
    messages (trace ++ [event]) = messages trace ++ (sent event).toList := by
  rw [messages, List.filterMap_append]
  cases returned : sent event <;> simp [returned, messages]

theorem finished_of_terminal_mem (consistent : start.Consistent) (calls : List Call) :
    ∀ outcome, .terminal outcome ∈ messages (machine.trace start calls) →
      (machine.after start calls).finished = true := by
  refine run_invariant (fun trace runner => ∀ outcome,
    .terminal outcome ∈ messages trace → runner.finished = true) consistent
    (fun _ member => absurd member List.not_mem_nil) ?_ calls
  intro trace runner call consistent held outcome member
  rw [messages_concat, List.mem_append, Option.mem_toList] at member
  rcases member with earlier | last
  · exact (consistent.later call).finished (held outcome earlier)
  · obtain ⟨capacity, emits⟩ := emits_of_sent consistent last
    generalize (runner.step call).1 = next at emits
    cases emits with
    | terminal => rfl

theorem messages_of_finished (consistent : start.Consistent)
    (finished : start.finished = true) (calls : List Call) :
    messages (machine.trace start calls) = [] := by
  have silent := run_invariant (fun trace runner =>
    runner.finished = true ∧ messages trace = []) consistent
    ⟨finished, rfl⟩ ?_ calls
  · exact silent.2
  · intro trace runner call consistent ⟨finished, unsent⟩
    refine ⟨(consistent.later call).finished finished, ?_⟩
    rw [messages_concat, unsent, List.nil_append, Option.toList_eq_nil_iff]
    by_contra returned
    obtain ⟨message, returned⟩ := Option.ne_none_iff_exists'.mp returned
    obtain ⟨capacity, emits⟩ := emits_of_sent consistent returned
    simp [emits.unfinished] at finished

/-- A run that returned an outcome reached a runner whose report it is, and
changed nothing in it but to finish it. -/
theorem exists_conclusion (consistent : start.Consistent) {outcome : Outcome}
    (member : .terminal outcome ∈ messages (machine.trace start calls)) :
    ∃ before call rest, calls = before ++ call :: rest ∧ untilTerminal (machine.trace start calls) =
        machine.trace start before ∧
      (machine.after start before).finished = false ∧
      (machine.after start before).Concluded ∧
      outcome = (machine.after start before).report ∧
      sent (call, ((machine.after start before).step call).2) = some (.terminal outcome) ∧
      ((machine.after start before).step call).1 =
        { machine.after start before with finished := true } := by
  obtain ⟨event, present, returned⟩ := List.mem_filterMap.mp member
  obtain ⟨earlier, later, split⟩ := List.append_of_mem present
  obtain ⟨before, rest, made, traced, stepped, -⟩ :=
    machine.exists_split_of_trace_eq start split
  have reached := consistent.after before
  obtain ⟨call, value⟩ := event
  simp only at made stepped
  subst value
  obtain ⟨capacity, emits⟩ := emits_of_sent reached returned
  have unfinished := emits.unfinished
  refine ⟨before, call, rest, made, ?_, unfinished, emits.concluded, ?_, returned, ?_⟩
  · rw [split, untilTerminal, List.takeWhile_append_of_pos]
    · rw [List.takeWhile_cons_of_neg, List.append_nil, traced]
      simp [returned, Message.isTerminal]
    · intro event present
      by_contra isTerminal
      simp only [Bool.not_eq_true', Bool.not_eq_false, Option.any_eq_true] at isTerminal
      obtain ⟨message, told, isTerminal⟩ := isTerminal
      cases message with
      | terminal first =>
        have finished := finished_of_terminal_mem consistent before first
          (List.mem_filterMap.mpr ⟨event, traced ▸ present, told⟩)
        simp [unfinished] at finished
      | _ => simp [Message.isTerminal] at isTerminal
  · generalize ((machine.after start before).step call).1 = next at emits
    cases emits with
    | terminal _ _ ended => exact (outcome_eq_some_iff.mp ended).2
  · generalize ((machine.after start before).step call).1 = next at emits ⊢
    cases emits with
    | terminal => rfl

end Nvx.Exec.Runner
