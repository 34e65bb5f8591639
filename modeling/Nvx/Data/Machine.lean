import Mathlib.Algebra.Order.BigOperators.Ring.Finset

namespace Nvx.Data

/-! Deterministic machines.  A run is the list of the calls made on a start
state; its trace pairs each call with what it returned. -/

structure Machine (State Call Return : Type) where
  step : State → Call → State × Return

namespace Machine

variable (machine : Machine State Call Return)

def after (start : State) : List Call → State
  | [] => start
  | call :: calls => after (machine.step start call).1 calls

def trace (start : State) : List Call → List (Call × Return)
  | [] => []
  | call :: calls =>
    (call, (machine.step start call).2) :: trace (machine.step start call).1 calls

@[simp] theorem after_nil (start : State) : machine.after start [] = start :=
  rfl

theorem after_append (start : State) (first second : List Call) :
    machine.after start (first ++ second) = machine.after (machine.after start first) second := by
  induction first generalizing start with
  | nil => rfl
  | cons call calls induction =>
    simp only [List.cons_append, after]
    exact induction _

theorem trace_append (start : State) (first second : List Call) :
    machine.trace start (first ++ second) = machine.trace start first ++
        machine.trace (machine.after start first) second := by
  induction first generalizing start with
  | nil => rfl
  | cons call calls induction =>
    simp only [List.cons_append, trace, after]
    rw [induction]

@[simp] theorem after_concat (start : State) (calls : List Call) (call : Call) :
    machine.after start (calls ++ [call]) = (machine.step (machine.after start calls) call).1 := by
  rw [after_append]
  rfl

@[simp] theorem trace_concat (start : State) (calls : List Call) (call : Call) :
    machine.trace start (calls ++ [call]) = machine.trace start calls ++
        [(call, (machine.step (machine.after start calls) call).2)] := by
  rw [trace_append]
  rfl

theorem map_fst_trace (start : State) (calls : List Call) :
    (machine.trace start calls).map Prod.fst = calls := by
  induction calls generalizing start with
  | nil => rfl
  | cons call calls induction => simp [trace, induction]

/-- Every event of a trace was returned by the state that the calls before it
lead to. -/
theorem exists_split_of_trace_eq (start : State)
    (split : machine.trace start calls = earlier ++ event :: later) :
    ∃ before rest, calls = before ++ event.1 :: rest ∧ machine.trace start before = earlier ∧
      event.2 = (machine.step (machine.after start before) event.1).2 ∧
      machine.trace (machine.step (machine.after start before) event.1).1 rest = later := by
  induction calls generalizing start earlier with
  | nil => simp [trace] at split
  | cons call calls induction =>
    cases earlier with
    | nil =>
      simp only [trace, List.nil_append, List.cons.injEq] at split
      obtain ⟨rfl, rfl⟩ := split
      exact ⟨[], calls, rfl, rfl, rfl, rfl⟩
    | cons head earlier =>
      simp only [trace, List.cons_append, List.cons.injEq] at split
      obtain ⟨rfl, split⟩ := split
      obtain ⟨before, rest, rfl, traced, returned, rested⟩ :=
        induction _ split
      exact ⟨call :: before, rest, rfl, by simp [trace, traced],
        returned, rested⟩

/-- The induction over a run: what holds at the start and is kept by each call
holds of the trace and the state of every run. -/
theorem invariant (Inv : List (Call × Return) → State → Prop) (initial : Inv [] start)
    (preserved : ∀ calls call, Inv (machine.trace start calls) (machine.after start calls) →
        Inv (machine.trace start calls ++
            [(call, (machine.step (machine.after start calls) call).2)])
          (machine.step (machine.after start calls) call).1)
    (calls : List Call) :
    Inv (machine.trace start calls) (machine.after start calls) := by
  induction calls using List.reverseRecOn with
  | nil => exact initial
  | append_singleton calls call induction =>
    simpa using preserved calls call induction

/-- A part of a machine on which each call of the machine makes one call or none
sees a run of its own. -/
theorem exists_run_of_part {Part : Type} (part : Machine Part PartCall PartReturn)
    (view : State → Part) (seen : Call × Return → Option (PartCall × PartReturn))
    (calls_part : ∀ state call, (∃ made, view (machine.step state call).1 =
          (part.step (view state) made).1 ∧
        seen (call, (machine.step state call).2) = some (made, (part.step (view state) made).2)) ∨
      view (machine.step state call).1 = view state ∧
        seen (call, (machine.step state call).2) = none)
    (start : State) (calls : List Call) :
    ∃ made, view (machine.after start calls) = part.after (view start) made ∧
      (machine.trace start calls).filterMap seen = part.trace (view start) made := by
  induction calls using List.reverseRecOn with
  | nil => exact ⟨[], rfl, rfl⟩
  | append_singleton calls call induction =>
    obtain ⟨made, runs, traces⟩ := induction
    rw [after_concat, trace_concat, List.filterMap_append, traces]
    rcases calls_part (machine.after start calls) call with
      ⟨last, stepped, event⟩ | ⟨same, event⟩
    · refine ⟨made ++ [last], ?_, ?_⟩
      · rw [after_concat, ← runs, stepped]
      · rw [trace_concat, ← runs, List.filterMap_cons_some event]
        rfl
    · refine ⟨made, same.trans runs, ?_⟩
      rw [List.filterMap_cons_none event]
      simp

/-- Starts that are alike, in a sense that each call keeps and under which it
returns the same, have the same traces. -/
theorem trace_eq_of_alike {Inv : State → Prop} {Alike : State → State → Prop}
    (keeps : ∀ state call, Inv state → Inv (machine.step state call).1)
    (returns : ∀ one other call, Inv one → Alike one other →
      (machine.step one call).2 = (machine.step other call).2 ∧
        Alike (machine.step one call).1 (machine.step other call).1)
    (inv : Inv one) (alike : Alike one other) (calls : List Call) :
    machine.trace one calls = machine.trace other calls ∧
      Alike (machine.after one calls) (machine.after other calls) := by
  induction calls generalizing one other with
  | nil => exact ⟨rfl, alike⟩
  | cons call calls induction =>
    obtain ⟨same, next⟩ := returns one other call inv alike
    obtain ⟨traces, last⟩ := induction (keeps one call inv) next
    rw [trace, trace, same, traces]
    exact ⟨rfl, last⟩

/-- Calls that each return a `done` event or lower the rank of a `Ready` state
return one once they are more than the rank. -/
theorem exists_done_of_rank (Ready : State → Prop) (allowed : Call → Prop)
    (done : Call × Return → Prop) (rank : State → Nat)
    (progress : ∀ state call, allowed call → Ready state →
      done (call, (machine.step state call).2) ∨ Ready (machine.step state call).1 ∧
          rank (machine.step state call).1 < rank state)
    (calls : List Call) (ready : Ready start) (permitted : ∀ call ∈ calls, allowed call)
    (enough : rank start < calls.length) :
    ∃ event ∈ machine.trace start calls, done event := by
  induction calls generalizing start with
  | nil => simp at enough
  | cons call calls induction =>
    simp only [List.mem_cons, forall_eq_or_imp, List.length_cons] at *
    rcases progress start call permitted.1 ready with now | ⟨next, lower⟩
    · exact ⟨_, List.mem_cons_self, now⟩
    · obtain ⟨event, member, isDone⟩ :=
        induction next permitted.2 (by omega)
      exact ⟨event, List.mem_cons_of_mem _ member, isDone⟩

def Stable (Inv holds : State → Prop) : Prop :=
  ∀ state call, Inv state → holds state → holds (machine.step state call).1

variable {machine}

/-- An event that needs `spent` to be false, and makes it true for good, occurs
at most once in a run. -/
theorem Stable.countP_le_one {Inv spent : State → Prop} (stable : machine.Stable Inv spent)
    (invariant : ∀ calls, Inv (machine.after start calls)) (event : Call × Return → Bool)
    (spends : ∀ state call, Inv state → event (call, (machine.step state call).2) = true →
        ¬ spent state ∧ spent (machine.step state call).1)
    (calls : List Call) :
    (machine.trace start calls).countP event ≤ 1 := by
  have counted : (machine.trace start calls).countP event ≤ 1 ∧
      (0 < (machine.trace start calls).countP event → spent (machine.after start calls)) := by
    induction calls using List.reverseRecOn with
    | nil => simp [trace]
    | append_singleton calls call induction =>
      obtain ⟨once, held⟩ := induction
      rw [trace_concat, after_concat, List.countP_append]
      cases occurs : event (call, (machine.step (machine.after start calls) call).2) with
      | false =>
        simp only [List.countP_cons, List.countP_nil, occurs]
        refine ⟨by simpa using once, fun positive => ?_⟩
        exact stable _ _ (invariant calls) (held (by simpa using positive))
      | true =>
        obtain ⟨unspent, nowSpent⟩ := spends _ _ (invariant calls) occurs
        have none : (machine.trace start calls).countP event = 0 := by
          by_contra positive
          exact unspent (held (Nat.pos_of_ne_zero positive))
        simp [none, occurs, nowSpent]
  exact counted.1

/-- An event that makes `closed` true for good is never followed by one that
needs it to be false. -/
theorem Stable.pairwise_not_after {Inv closed : State → Prop} (stable : machine.Stable Inv closed)
    (invariant : ∀ calls, Inv (machine.after start calls)) (closing barred : Call × Return → Prop)
    (closes : ∀ state call, Inv state → closing (call, (machine.step state call).2) →
        closed (machine.step state call).1)
    (bars : ∀ state call, Inv state → closed state → ¬ barred (call, (machine.step state call).2))
    (calls : List Call) :
    (machine.trace start calls).Pairwise
      (fun earlier later => closing earlier → ¬ barred later) := by
  have ordered : (machine.trace start calls).Pairwise
        (fun earlier later => closing earlier → ¬ barred later) ∧
      ∀ event ∈ machine.trace start calls, closing event → closed (machine.after start calls) := by
    induction calls using List.reverseRecOn with
    | nil => simp [trace]
    | append_singleton calls call induction =>
      obtain ⟨pairwise, held⟩ := induction
      rw [trace_concat, after_concat]
      constructor
      · rw [List.pairwise_append]
        refine ⟨pairwise, List.pairwise_singleton _ _, ?_⟩
        intro earlier member later last isClosing
        rw [List.mem_singleton] at last
        subst later
        exact bars _ _ (invariant calls) (held earlier member isClosing)
      · intro event member isClosing
        rw [List.mem_append, List.mem_singleton] at member
        rcases member with member | rfl
        · exact stable _ _ (invariant calls) (held event member isClosing)
        · exact closes _ _ (invariant calls) isClosing
  exact ordered.1

end Machine

end Nvx.Data
