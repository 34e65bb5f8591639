import Nvx.Exec.RunnerProgress

namespace Nvx.Exec.Runner

open Nvx.Data

/-! What a run's trace tells about the state that it leads to. -/

abbrev Event := Call × Return

def sent : Event → Option Message
  | (_, .message message) => message
  | _ => none

def asked : Event → Option Request
  | (_, .request request) => request
  | _ => none

def messages (trace : List Event) : List Message := trace.filterMap sent

def requests (trace : List Event) : List Request := trace.filterMap asked

def exitOf : Event → Option (Instant × Option Status)
  | (.act (.exited now status), _) => some (now, status)
  | _ => none

def firstExit (trace : List Event) : Option (Instant × Option Status) :=
  trace.findSome? exitOf

theorem mem_of_firstExit {exit : Instant × Option Status}
    (first : firstExit (machine.trace start calls) = some exit) :
    .act (.exited exit.1 exit.2) ∈ calls := by
  obtain ⟨event, member, exits⟩ := List.exists_of_findSome?_eq_some first
  have called : event.1 = .act (.exited exit.1 exit.2) := by
    unfold exitOf at exits
    split at exits
    · rw [← Option.some.inj exits]
    · simp at exits
  have present := List.mem_map_of_mem (f := Prod.fst) member
  rwa [machine.map_fst_trace, called] at present

theorem firstExit_concat (trace : List Event) (event : Event) :
    firstExit (trace ++ [event]) = (firstExit trace).or (exitOf event) := by
  unfold firstExit
  rw [List.findSome?_append, List.findSome?_singleton]

def launchOf : Event → Option (Except LaunchFailure Unit)
  | (.act (.launched result), _) => some result
  | _ => none

def firstLaunch (trace : List Event) : Option (Except LaunchFailure Unit) :=
  trace.findSome? launchOf

theorem firstLaunch_concat (trace : List Event) (event : Event) : firstLaunch (trace ++ [event]) =
      (firstLaunch trace).or (launchOf event) := by
  unfold firstLaunch
  rw [List.findSome?_append, List.findSome?_singleton]

theorem emits_of_sent (consistent : runner.Consistent)
    (returned : sent (call, (runner.step call).2) = some message) :
    ∃ capacity, Emits runner capacity (runner.step call).1 (some message) := by
  cases call with
  | act call => cases call <;> simp [sent, step, act] at returned
  | receive now key received => simp [sent, step] at returned
  | nextMessage capacity =>
    have emits := consistent.emits capacity
    simp only [sent, step] at returned
    rw [returned] at emits
    exact ⟨capacity, emits⟩

theorem requests_of_asked (returned : asked (call, (runner.step call).2) = some request) :
    Requests runner (runner.step call).1 (some request) := by
  cases call with
  | act call =>
    cases call with
    | nextRequest =>
      have requests := runner.nextRequest_requests
      simp only [asked, step, act] at returned
      rw [returned] at requests
      exact requests
    | _ => simp [asked, step, act] at returned
  | receive now key received | nextMessage capacity => simp [asked, step] at returned

/-- What the bytes, the credit and the requests of a runner leave alone. -/
structure ControlKept (allowed : LocalCall → Prop) (Inv holds : Runner → Prop) : Prop where
  change : ∀ {runner next}, Change runner next → Inv runner → holds runner → holds next
  report : ∀ {runner call next}, Report runner call next → allowed call →
    Inv runner → holds runner → holds next
  aside : ∀ {runner}, holds runner →
    ∀ input outputs credits overflowed highWater terminateRequest settleRequest,
      holds { runner with
        input, outputs, credits, overflowed, highWater, terminateRequest, settleRequest }

namespace ControlKept

variable {Inv : Runner → Prop} (kept : ControlKept allowed Inv holds)

include kept

theorem locally : LocallyKept allowed Inv holds where
  change := kept.change
  report := kept.report
  output := fun stream bytes _ _ held => by
    obtain ⟨_, _, _, _, same⟩ := output_frame _ stream bytes
    rw [same]
    exact kept.aside held _ _ _ _ _ _ _
  popInput := fun _ _ _ _ held => kept.aside held _ _ _ _ _ _ _
  requests := fun requests _ held => by cases requests <;> exact kept.aside held _ _ _ _ _ _ _

theorem remotely : RemotelyKept Inv holds where
  change := kept.change
  grant := fun _ _ _ held => kept.aside held _ _ _ _ _ _ _
  charge := fun _ _ _ _ _ held => by split <;> exact kept.aside held _ _ _ _ _ _ _
  peerEnds := fun _ _ _ held => kept.aside held _ _ _ _ _ _ _

end ControlKept

theorem ControlKept.kept {Inv : Runner → Prop} (kept : ControlKept (fun _ => True) Inv holds)
    (emits : ∀ {runner next capacity message},
      Emits runner capacity next message → Inv runner → holds runner → holds next) :
    KeptUnder Inv holds :=
  { kept.locally, kept.remotely with emits }

theorem exit_kept (start : Runner) :
    ControlKept (fun call => ∀ now status, call ≠ .exited now status) (fun _ => True)
      fun runner => runner.gaveUp = true ∨ runner.exit = start.exit where
  change := fun change _ held => by
    cases change with
    | giveUp waiting unfinished unclean => exact .inl rfl
    | _ => exact held
  report := fun report other _ held => by
    cases report with
    | exit now status => exact absurd rfl (other now status)
    | _ => exact held
  aside := fun held _ _ _ _ _ _ _ => held

theorem Emits.exit_eq (emits : Emits runner capacity next message) :
    next.exit = runner.exit := by
  cases emits <;> rfl

theorem Consistent.step_exit (consistent : Consistent runner) (call : Call) :
    (runner.step call).1.gaveUp = true ∨ (runner.step call).1.exit = runner.exit.or
        ((exitOf (call, (runner.step call).2)).map Prod.snd) := by
  have kept := (exit_kept runner).locally
  cases call with
  | act call =>
    by_cases exits : ∃ now status, call = .exited now status
    · obtain ⟨now, status, rfl⟩ := exits
      have ticked := kept.evolves ((Relation.ReflTransGen.single Change.stopTimeout).trans
          (tick_evolves { runner with timeoutAt := none } now)) (.inr rfl)
      change (runner.exited now status).gaveUp = true ∨
        (runner.exited now status).exit = runner.exit.or (some status)
      unfold exited
      simp only
      split
      · rename_i isOver
        rcases ticked with gaveUp | same
        · exact .inl gaveUp
        · rw [Bool.or_eq_true] at isOver
          rcases isOver with isSome | gaveUp
          · right
            rw [same] at isSome ⊢
            obtain ⟨earlier, exited⟩ := Option.isSome_iff_exists.mp isSome
            rw [exited, Option.some_or]
          · exact .inl gaveUp
      · rename_i running
        rw [not_isSome_or] at running
        rcases ticked with gaveUp | same
        · simp [running.2] at gaveUp
        · right
          rw [recordExit_eq, ← same, running.1]
          rfl
    · have others : ∀ now status, call ≠ .exited now status :=
        fun now status same => exits ⟨now, status, same⟩
      have silent : exitOf (.act call, (runner.step (.act call)).2) =
          none := by
        cases call with
        | exited now status => exact absurd rfl (others now status)
        | _ => rfl
      rw [silent, Option.map_none, Option.or_none]
      exact kept.act runner others (.inr rfl)
  | receive now key message =>
    rw [show exitOf (_, (runner.step (.receive now key message)).2) = none
      from rfl, Option.map_none, Option.or_none]
    exact (exit_kept runner).remotely.receive runner now key message (.inr rfl)
  | nextMessage capacity =>
    rw [show exitOf (_, (runner.step (.nextMessage capacity)).2) = none
      from rfl, Option.map_none, Option.or_none]
    exact .inr (consistent.emits capacity).exit_eq

theorem launch_kept (start : Runner) :
    ControlKept (fun call => ∀ result, call ≠ .launched result) (fun _ => True)
      fun runner => runner.launch = start.launch where
  change := fun change _ held => by cases change <;> exact held
  report := fun report other _ held => by
    cases report with
    | launched => exact absurd rfl (other (.ok ()))
    | launchFailed awaited failure => exact absurd rfl (other (.error failure))
    | _ => exact held
  aside := fun held _ _ _ _ _ _ _ => held

theorem Emits.launch_eq (emits : Emits runner capacity next message) :
    next.launch = runner.launch := by
  cases emits <;> rfl

theorem Consistent.step_launch (consistent : Consistent runner) (call : Call) :
    (runner.step call).1.launch =
      if runner.awaitsLaunch then
        (launchOf (call, (runner.step call).2)).or runner.launch
      else runner.launch := by
  have unchanged (same : (runner.step call).1.launch = runner.launch)
      (silent : launchOf (call, (runner.step call).2) = none) :
      (runner.step call).1.launch =
        if runner.awaitsLaunch then
          (launchOf (call, (runner.step call).2)).or runner.launch
        else runner.launch := by
    rw [same, silent, Option.none_or, ite_self]
  cases call with
  | act call =>
    by_cases launches : ∃ result, call = .launched result
    · obtain ⟨result, rfl⟩ := launches
      change (runner.launched result).launch =
        if runner.awaitsLaunch then some result else runner.launch
      unfold launched
      cases awaited : runner.awaitsLaunch with
      | false => rfl
      | true =>
        cases result with
        | ok value => rfl
        | error failure =>
          simp only [Bool.not_true, Bool.false_eq_true, if_false]
          rw [closeInput_eq]
          rfl
    · have others : ∀ result, call ≠ .launched result :=
        fun result same => launches ⟨result, same⟩
      refine unchanged ((launch_kept runner).locally.act runner others rfl) ?_
      cases call with
      | launched result => exact absurd rfl (others result)
      | _ => rfl
  | receive now key message =>
    exact unchanged ((launch_kept runner).remotely.receive runner now key message rfl) rfl
  | nextMessage capacity =>
    exact unchanged (consistent.emits capacity).launch_eq rfl

structure Unsent (runner next : Runner) : Prop where
  ended : ∀ stream, (next.outputs stream).ended = (runner.outputs stream).ended
  finished : next.finished = runner.finished

structure Framed (runner next : Runner) : Prop extends Unsent runner next where
  credits : next.credits = runner.credits
  opened : next.input.window.opened = runner.input.window.opened
  peerEnded : next.input.peerEnded = runner.input.peerEnded

namespace Unsent

theorem refl (runner : Runner) : runner.Unsent runner where
  ended := fun _ => rfl
  finished := rfl

theorem change {start runner next : Runner} (change : Change runner next)
    (unsent : start.Unsent runner) : start.Unsent next where
  ended := fun stream => by
    have same := unsent.ended stream
    cases change with
    | endGrace => simpa [endGrace, Output.endGrace_eq] using same
    | giveUp => simpa [giveUp, Output.giveUp_eq] using same
    | abandonOpenStreams =>
      simpa [abandonOpenStreams, Output.abandon_eq] using same
    | _ => exact same
  finished := by
    have same := unsent.finished
    cases change <;> exact same

theorem update (unsent : Unsent start runner) (stream : Stream) (output : Output)
    (same : output.ended = (runner.outputs stream).ended) (other : Stream) :
    (Function.update runner.outputs stream output other).ended = (start.outputs other).ended :=
  (update_field Output.ended same other).trans (unsent.ended other)

theorem remotelyKept (start : Runner) : RemotelyKept (fun _ => True) start.Unsent where
  change := fun step _ unsent => unsent.change step
  grant := fun _ _ _ unsent => { unsent with }
  charge := fun _ _ _ _ _ unsent => by split <;> exact { unsent with }
  peerEnds := fun _ _ _ unsent => { unsent with }

theorem receive (runner : Runner) (now : Instant) (key : Key) (message : Peer.Message) :
    runner.Unsent (runner.receive now key message).1 :=
  (remotelyKept runner).receive runner now key message (.refl runner)

end Unsent

namespace Framed

theorem refl (runner : Runner) : runner.Framed runner where
  toUnsent := .refl runner
  credits := rfl
  opened := rfl
  peerEnded := rfl

theorem change (change : Change runner next)
    (framed : Framed start runner) : start.Framed next := by
  have unsent := framed.toUnsent.change change
  cases change <;> exact { framed with toUnsent := unsent }

theorem report (report : Report runner call next) (framed : Framed start runner) :
    start.Framed next := by
  cases report with
  | setOutput stream call output change =>
    have same : output.ended = (runner.outputs stream).ended := by
      cases change <;> rfl
    exact { framed with ended := framed.toUnsent.update stream output same }
  | _ => exact { framed with }

theorem output (framed : Framed start runner) (stream : Stream) (bytes : List UInt8) :
    start.Framed (runner.output stream bytes).1 := by
  obtain ⟨_, _, _, _, same⟩ := output_frame runner stream bytes
  rw [same]
  exact { framed with ended := framed.toUnsent.update stream _ rfl }

theorem requests (requests : Requests runner next request) (framed : Framed start runner) :
    start.Framed next := by
  cases requests with
  | discard stream waiting =>
    exact { framed with ended := framed.toUnsent.update stream _ rfl }
  | nothing => exact framed
  | _ => exact { framed with }

theorem locallyKept (start : Runner) :
    LocallyKept (fun _ => True) (fun _ => True) start.Framed where
  change := fun step _ framed => framed.change step
  report := fun step _ _ framed => framed.report step
  output := fun stream bytes _ _ framed => framed.output stream bytes
  popInput := fun _ _ _ _ framed => { framed with }
  requests := fun step _ framed => framed.requests step

theorem act (runner : Runner) (call : LocalCall) : runner.Framed (runner.act call).1 :=
  (locallyKept runner).act runner trivial (.refl runner)

end Framed

theorem Consistent.step_ended (consistent : Consistent runner) (call : Call)
    (ended : ((runner.step call).1.outputs stream).ended = true) :
    (runner.outputs stream).ended = true ∨
      sent (call, (runner.step call).2) = some (.streamEnd stream) := by
  cases call with
  | act call =>
    left
    rw [← ended]
    exact ((Framed.act runner call).ended stream).symm
  | receive now key message =>
    left
    rw [← ended]
    exact ((Unsent.receive runner now key message).ended stream).symm
  | nextMessage capacity =>
    have emits := consistent.emits capacity
    change ((runner.nextMessage capacity).1.outputs stream).ended = true at ended
    change _ ∨ (runner.nextMessage capacity).2 = some (.streamEnd stream)
    generalize (runner.nextMessage capacity).1 = next at emits ended
    generalize (runner.nextMessage capacity).2 = message at emits ⊢
    cases emits with
    | streamEnd other speaks started launched ending =>
      by_cases same : stream = other
      · exact .inr (by rw [same])
      · left
        simpa [Function.update_of_ne same] using ended
    | output other length =>
      left
      rw [← ended]
      refine (update_field Output.ended ?_ stream).symm
      rfl
    | _ => exact .inl ended

theorem Consistent.step_finished (consistent : Consistent runner) (call : Call)
    (finished : (runner.step call).1.finished = true) :
    runner.finished = true ∨ ∃ outcome, sent (call, (runner.step call).2) =
        some (.terminal outcome) := by
  cases call with
  | act call =>
    left
    rw [← finished]
    exact (Framed.act runner call).finished.symm
  | receive now key message =>
    left
    rw [← finished]
    exact (Unsent.receive runner now key message).finished.symm
  | nextMessage capacity =>
    have emits := consistent.emits capacity
    change (runner.nextMessage capacity).1.finished = true at finished
    change _ ∨ ∃ outcome, (runner.nextMessage capacity).2 = some (.terminal outcome)
    generalize (runner.nextMessage capacity).1 = next at emits finished
    generalize (runner.nextMessage capacity).2 = message at emits
    cases emits with
    | terminal outcome => exact .inr ⟨outcome, rfl⟩
    | _ => exact .inl finished

/-- What holds at the start and is kept by each call of a consistent runner
holds of every trace and the state that it leads to. -/
theorem run_invariant (Inv : List Event → Runner → Prop)
    (consistent : start.Consistent) (initial : Inv [] start)
    (preserved : ∀ trace (runner : Runner) call, runner.Consistent → Inv trace runner →
        Inv (trace ++ [(call, (runner.step call).2)]) (runner.step call).1)
    (calls : List Call) :
    Inv (machine.trace start calls) (machine.after start calls) :=
  machine.invariant Inv initial (fun calls call held =>
    preserved _ _ call (consistent.after calls) held) calls

section Runs

variable (key : Key) (limits : Limits) (timers : Timers) (now : Instant)

theorem exit_eq_firstExit (calls : List Call) :
    let start := Runner.new key limits timers now
    (machine.after start calls).gaveUp = true ∨ (machine.after start calls).exit =
        (firstExit (machine.trace start calls)).map Prod.snd := by
  refine run_invariant (fun trace runner => runner.gaveUp = true ∨
    runner.exit = (firstExit trace).map Prod.snd)
    (Consistent.new key limits timers now) (.inr rfl) ?_ calls
  intro trace runner call consistent held
  rcases held with gaveUp | same
  · exact .inl ((consistent.later call).gaveUp gaveUp)
  · rcases consistent.step_exit call with gaveUp | exit
    · exact .inl gaveUp
    · right
      rw [exit, same, firstExit_concat, Option.map_or]

theorem launch_eq_none_of_awaitsLaunch
    (awaits : awaitsLaunch runner = true) : runner.launch = none := by
  simp only [awaitsLaunch, Bool.and_eq_true, Option.isNone_iff_eq_none] at awaits
  exact awaits.1.1

theorem launch_eq_firstLaunch (calls : List Call) :
    let start := Runner.new key limits timers now
    ((machine.after start calls).launch.isSome = true → firstLaunch (machine.trace start calls) =
        (machine.after start calls).launch) ∧
    ((machine.after start calls).awaitsLaunch = true →
      firstLaunch (machine.trace start calls) = none) := by
  refine run_invariant (fun trace runner =>
    (runner.launch.isSome = true → firstLaunch trace = runner.launch) ∧
      (runner.awaitsLaunch = true → firstLaunch trace = none))
    (Consistent.new key limits timers now)
    ⟨by simp [Runner.new], fun _ => rfl⟩ ?_ calls
  intro trace runner call consistent held
  obtain ⟨known, awaited⟩ := held
  have launch := consistent.step_launch call
  rw [firstLaunch_concat]
  cases awaits : runner.awaitsLaunch with
  | true =>
    rw [awaited awaits, Option.none_or]
    rw [awaits, if_pos rfl, launch_eq_none_of_awaitsLaunch awaits, Option.or_none] at launch
    exact ⟨fun _ => launch.symm, fun still =>
      launch.symm.trans (launch_eq_none_of_awaitsLaunch still)⟩
  | false =>
    rw [awaits, if_neg (by simp)] at launch
    refine ⟨fun isSome => ?_, fun still => ?_⟩
    · rw [launch] at isSome ⊢
      rw [known isSome]
      obtain ⟨result, launched⟩ := Option.isSome_iff_exists.mp isSome
      rw [launched, Option.some_or]
    · have before := (consistent.later call).awaitsLaunch still
      simp [awaits] at before

theorem streamEnd_mem_messages (calls : List Call) (stream : Stream) :
    let start := Runner.new key limits timers now
    ((machine.after start calls).outputs stream).ended = true →
      .streamEnd stream ∈ messages (machine.trace start calls) := by
  refine run_invariant (fun trace runner =>
    (runner.outputs stream).ended = true → .streamEnd stream ∈ messages trace)
    (Consistent.new key limits timers now)
    (fun ended => absurd ended (by simp [Runner.new, Output.new])) ?_ calls
  intro trace runner call consistent held ended
  rw [messages, List.filterMap_append, List.mem_append]
  rcases consistent.step_ended call ended with earlier | returned
  · exact .inl (held earlier)
  · right
    rw [List.mem_filterMap]
    exact ⟨_, List.mem_singleton_self _, returned⟩

theorem terminal_mem_messages (calls : List Call) :
    let start := Runner.new key limits timers now
    (machine.after start calls).finished = true →
      ∃ outcome, .terminal outcome ∈ messages (machine.trace start calls) := by
  refine run_invariant (fun trace runner => runner.finished = true →
    ∃ outcome, .terminal outcome ∈ messages trace)
    (Consistent.new key limits timers now) (by simp [Runner.new]) ?_ calls
  intro trace runner call consistent held finished
  simp only [messages, List.filterMap_append, List.mem_append]
  rcases consistent.step_finished call finished with earlier | ⟨outcome, sent⟩
  · obtain ⟨outcome, member⟩ := held earlier
    exact ⟨outcome, .inl member⟩
  · refine ⟨outcome, .inr ?_⟩
    rw [List.mem_filterMap]
    exact ⟨_, List.mem_singleton_self _, sent⟩

end Runs

end Nvx.Exec.Runner
