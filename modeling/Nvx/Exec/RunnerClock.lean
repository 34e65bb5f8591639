import Nvx.Exec.RunnerTerminal
import Mathlib.Data.List.TakeWhile

namespace Nvx.Exec.Runner

open Nvx.Data

/-! What the instants handed to a runner decide: when its settlement comes too
late, and what a tick does not touch. -/

/-- The instant at which a call ticks a runner whose key is `own`. -/
def Call.ticks (own : Key) : Call → Option Instant
  | .act (.tick now) => some now
  | .act (.exited now _) => some now
  | .act (.dropped now) => some now
  | .act (.reset now) => some now
  | .act (.disconnect now) => some now
  | .receive now key (.cancel _) => if key = own then some now else none
  | _ => none

def Call.isExit : Call → Bool
  | .act (.exited _ _) => true
  | _ => false

def sinceExit (calls : List Call) : List Call :=
  (calls.dropWhile fun call => !call.isExit).tail

theorem sinceExit_concat (exited : ∃ call ∈ calls, call.isExit = true) (call : Call) :
    sinceExit (calls ++ [call]) = sinceExit calls ++ [call] := by
  have nonempty : calls.dropWhile (fun call => !call.isExit) ≠ [] := by
    obtain ⟨exit, member, isExit⟩ := exited
    intro none
    simpa [isExit] using List.dropWhile_eq_nil_iff.mp none exit member
  unfold sinceExit
  rw [List.dropWhile_append, if_neg (by simpa using nonempty),
    List.tail_append_of_ne_nil nonempty]

theorem sinceExit_concat_of_first (running : ∀ call ∈ calls, call.isExit = false) (call : Call) :
    sinceExit (calls ++ [call]) = [] := by
  have none : calls.dropWhile (fun call => !call.isExit) = [] :=
    List.dropWhile_eq_nil_iff.mpr fun call member => by
      simp [running call member]
  unfold sinceExit
  rw [List.dropWhile_append, none]
  cases exits : call.isExit <;> simp [exits]

theorem firstExit_eq_none_iff :
    firstExit (machine.trace start calls) = none ↔ ∀ call ∈ calls, call.isExit = false := by
  have same (event : Event) : exitOf event = none ↔ event.1.isExit = false := by
    obtain ⟨call, value⟩ := event
    cases call with
    | act call => cases call <;> simp [exitOf, Call.isExit]
    | _ => simp [exitOf, Call.isExit]
  rw [firstExit, List.findSome?_eq_none_iff]
  constructor
  · intro none call member
    rw [← machine.map_fst_trace start calls] at member
    obtain ⟨event, present, rfl⟩ := List.mem_map.mp member
    exact (same event).mp (none event present)
  · intro running event present
    have member := List.mem_map_of_mem (f := Prod.fst) present
    rw [machine.map_fst_trace] at member
    exact (same event).mpr (running event.1 member)

theorem requested_kept (start : Runner) (by_ : Option Instant) :
    ControlKept (fun call => ∀ now status, call ≠ .exited now status) (fun _ => True)
      fun runner => runner.settling = .requested by_ → start.settling = .requested by_ where
  change := fun change _ held => by
    cases change with
    | fence awaited => simp
    | giveUp => simp [giveUp]
    | abandonLaunch => simp [abandonLaunch]
    | _ => exact held
  report := fun report permitted _ held => by
    cases report with
    | exit now status => exact absurd rfl (permitted now status)
    | settle awaited => simp
    | _ => exact held
  aside := fun held _ _ _ _ _ _ _ => held

theorem requested_of_evolves {by_ : Option Instant}
    (chain : Evolves runner next) (waits : next.settling = .requested by_) :
    runner.settling = .requested by_ :=
  (requested_kept runner by_).locally.evolves chain id waits

theorem Emits.settling_eq (emits : Emits runner capacity next message) :
    next.settling = runner.settling := by
  cases emits <;> rfl

theorem not_reached_of_tick {runner : Runner} {now : Instant}
    {by_ : Option Instant} (unfinished : runner.finished = false)
    (waits : (runner.tick now).settling = .requested by_) :
    reached by_ now = false := by
  unfold tick at waits
  rw [if_neg (by simp [unfinished])] at waits
  simp only at waits
  generalize graced : (runner.tickTimeout now).tickGrace now = late at waits
  have stillUnfinished : late.finished = false := by
    rw [← graced]
    simpa using unfinished
  have settled := requested_of_evolves
    ((tickGiveUp_evolves now (by simpa using stillUnfinished)).trans
      (tickAbandon_evolves now (by simpa using stillUnfinished))) waits
  unfold tickSettlement at settled
  split at settled
  · split at settled
    · simp at settled
    · rename_i instant waiting early
      rw [waiting] at settled
      obtain rfl := Settling.requested.inj settled
      simpa using early
  · rename_i others
    cases by_ with
    | none => rfl
    | some instant => exact absurd settled (others instant)

/-- A call after which the settlement is awaited came before its instant, or is
the exit that started the wait. -/
theorem Consistent.step_requested
    (consistent : Consistent runner) (call : Call) {by_ : Option Instant}
    (waits : (runner.step call).1.settling = .requested by_) :
    runner.settling = .requested by_ ∧
        (∀ now, call.ticks runner.key = some now → reached by_ now = false) ∨
      runner.exit = none ∧ ∃ now status, call = .act (.exited now status) ∧
        by_ = Exec.after now runner.timers.settlement := by
  have unfinished {by_ : Option Instant}
      (waits : runner.settling = .requested by_) : runner.finished = false := by
    by_contra finished
    have settled := (consistent.life.finished (by simpa using finished)).2.2
    simp [isSettled, waits] at settled
  -- A call that ticks the runner first, and then only evolves it.
  have ticking {now : Instant} {next : Runner} (chain : Evolves (runner.tick now) next)
      (waits : next.settling = .requested by_) :
      runner.settling = .requested by_ ∧
        ∀ instant, some now = some instant → reached by_ instant = false := by
    have ticked := requested_of_evolves chain waits
    have before := requested_of_evolves (runner.tick_evolves now) ticked
    have early := not_reached_of_tick (unfinished before) ticked
    exact ⟨before, fun _ same => Option.some.inj same ▸ early⟩
  cases call with
  | act call =>
    cases call with
    | exited now status =>
      have chain : Evolves runner ({ runner with timeoutAt := none }.tick now) :=
        (Relation.ReflTransGen.single Change.stopTimeout).trans (tick_evolves _ now)
      change (runner.exited now status).settling = .requested by_ at waits
      unfold exited at waits
      simp only at waits
      split at waits
      · left
        have before := requested_of_evolves chain waits
        refine ⟨before, fun instant same => ?_⟩
        obtain rfl := Option.some.inj same
        exact @not_reached_of_tick { runner with timeoutAt := none } _ _ (unfinished before) waits
      · rename_i running
        rw [not_isSome_or] at running
        have later := (consistent.later_of_evolves (chain.trans (closeInput_evolves _))).2
        rw [recordExit_eq] at waits
        refine .inr ⟨Later.none_of_kept later.exit ?_, now, status, rfl, ?_⟩
        · rw [closeInput_exit]
          exact running.1
        · rw [← later.timers]
          exact (Settling.requested.inj waits).symm
    | tick now => exact .inl (ticking .refl waits)
    | dropped now =>
      exact .inl (ticking (runner.tick_detach_evolves now .dropped) waits)
    | reset now =>
      exact .inl (ticking (runner.tick_detach_evolves now .reset) waits)
    | disconnect now =>
      exact .inl (ticking (runner.tick_detach_evolves now .disconnected) waits)
    | _ =>
      exact .inl ⟨(requested_kept runner by_).locally.act runner (by simp) id
        waits, by simp [Call.ticks]⟩
  | receive now key message =>
    have before := (requested_kept runner by_).remotely.receive runner now key message id waits
    cases message with
    | cancel cause =>
      by_cases own : key = runner.key
      · subst key
        simpa only [Call.ticks, if_true] using
          .inl (ticking (runner.tick_cancel_evolves now cause) waits)
      · exact .inl ⟨before, by simp [Call.ticks, own]⟩
    | _ => exact .inl ⟨before, by simp [Call.ticks]⟩
  | nextMessage capacity =>
    left
    refine ⟨?_, by simp [Call.ticks]⟩
    have emits := consistent.emits capacity
    change (runner.nextMessage capacity).1.settling = .requested by_ at waits
    rw [← waits]
    exact emits.settling_eq.symm

theorem settled_kept (start : Runner) :
    ControlKept (fun call => call ≠ .settled .settled) (fun _ => True)
      fun runner => runner.settling = .settled → start.settling = .settled where
  change := fun change _ held => by
    cases change with
    | fence awaited => simp
    | giveUp => simp [giveUp]
    | abandonLaunch => simp [abandonLaunch]
    | _ => exact held
  report := fun report permitted _ held => by
    cases report with
    | exit now status => simp [beginSettlement]
    | settle awaited => exact absurd rfl permitted
    | _ => exact held
  aside := fun held _ _ _ _ _ _ _ => held

theorem Consistent.step_settled (consistent : Consistent runner) (call : Call)
    (settled : (runner.step call).1.settling = .settled) :
    runner.settling = .settled ∨ call = .act (.settled .settled) ∧
      ∃ by_, runner.settling = .requested by_ := by
  cases call with
  | act call =>
    by_cases settles : call = .settled .settled
    · subst call
      change (runner.settled .settled).settling = .settled at settled
      unfold Runner.settled at settled
      split at settled
      · rename_i by_ waiting _
        exact .inr ⟨rfl, by_, waiting⟩
      · simp at settled
      · exact .inl settled
    · exact .inl ((settled_kept runner).locally.act runner settles id settled)
  | receive now key message =>
    exact .inl ((settled_kept runner).remotely.receive runner now key message id settled)
  | nextMessage capacity =>
    left
    have emits := consistent.emits capacity
    change (runner.nextMessage capacity).1.settling = .settled at settled
    rw [← settled]
    exact emits.settling_eq.symm

section Runs

variable (key : Key) (limits : Limits) (timers : Timers) (now : Instant)

theorem firstExit_of_running {calls : List Call} :
    let start := Runner.new key limits timers now
    (machine.after start calls).exit = none → firstExit (machine.trace start calls) = none := by
  intro start running
  have initial : start.Consistent := .new key limits timers now
  rcases exit_eq_firstExit key limits timers now calls with gaveUp | same
  · have exited := ((initial.after calls).life.gaveUp gaveUp).1
    simp [start, running] at exited
  · rw [running] at same
    simpa using same.symm

/-- As long as the settlement is awaited, no tick since the exit has reached its
instant. -/
theorem requested_in_time (calls : List Call) {by_ : Option Instant} :
    let start := Runner.new key limits timers now
    (machine.after start calls).settling = .requested by_ →
      ∃ exit, firstExit (machine.trace start calls) = some exit ∧
        by_ = after exit.1 timers.settlement ∧
        ∀ call ∈ sinceExit calls, ∀ now, call.ticks key = some now → reached by_ now = false := by
  intro start
  have initial : start.Consistent := .new key limits timers now
  induction calls using List.reverseRecOn with
  | nil => simp [start, Runner.new]
  | append_singleton calls call induction =>
    intro waits
    have consistent := initial.after calls
    have later := initial.later_after calls
    rw [machine.after_concat, machine_step] at waits
    rw [machine.trace_concat, firstExit_concat]
    rcases consistent.step_requested call waits with
      ⟨before, early⟩ | ⟨running, instant, status, rfl, rfl⟩
    · obtain ⟨exit, first, same, others⟩ := induction before
      refine ⟨exit, by rw [first, Option.some_or], same, ?_⟩
      have exited : ∃ call ∈ calls, call.isExit = true :=
        ⟨_, mem_of_firstExit first, rfl⟩
      rw [sinceExit_concat exited]
      intro other member
      rw [List.mem_append, List.mem_singleton] at member
      rcases member with earlier | rfl
      · exact others other earlier
      · rw [later.key] at early
        exact early
    · have first := firstExit_of_running key limits timers now running
      refine ⟨(instant, status), by rw [first]; rfl, ?_, ?_⟩
      · rw [later.timers]
        rfl
      · rw [sinceExit_concat_of_first (firstExit_eq_none_iff.mp first)]
        simp

/-- A settled runner was settled after its exit, before a tick reached the
settlement's instant. -/
theorem settled_in_time (calls : List Call) :
    let start := Runner.new key limits timers now
    (machine.after start calls).settling = .settled →
      ∃ before rest exit, calls = before ++ .act (.settled .settled) :: rest ∧
        firstExit (machine.trace start before) = some exit ∧
        ∀ call ∈ sinceExit before, ∀ now, call.ticks key = some now →
          reached (after exit.1 timers.settlement) now = false := by
  intro start
  have initial : start.Consistent := .new key limits timers now
  induction calls using List.reverseRecOn with
  | nil => simp [start, Runner.new]
  | append_singleton calls call induction =>
    intro settled
    rw [machine.after_concat, machine_step] at settled
    rcases (initial.after calls).step_settled call settled with
      earlier | ⟨rfl, by_, waits⟩
    · obtain ⟨before, rest, exit, rfl, first, others⟩ := induction earlier
      exact ⟨before, rest ++ [call], exit, by simp, first, others⟩
    · obtain ⟨exit, first, rfl, others⟩ :=
        requested_in_time key limits timers now calls waits
      exact ⟨calls, [], exit, rfl, first, others⟩

end Runs

end Nvx.Exec.Runner
