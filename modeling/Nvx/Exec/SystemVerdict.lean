import Nvx.Exec.RunnerExit
import Nvx.Exec.SystemOutput

namespace Nvx.Exec

open Nvx.Data

/-! What the peer's outcome says of the workload. -/

namespace Runner

theorem tick_terminates (consistent : Consistent runner)
    (now : Instant) (terminated : (runner.tick now).terminatedAt.isSome = true) :
    runner.terminatedAt.isSome = true ∨ (runner.tick now).cause.isSome = true := by
  cases finished : runner.finished with
  | true =>
    left
    rwa [tick, if_pos finished] at terminated
  | false =>
    rw [tick_terminatedAt finished] at terminated
    by_cases due : reached runner.timeoutAt now = true
    · right
      have timed := consistent.later_of_evolves (tickTimeout_evolves now finished)
      have rest : Evolves (runner.tickTimeout now) (runner.tick now) := by
        unfold tick
        rw [if_neg (by simp [finished])]
        simp only
        refine (tickGrace_evolves now (by simpa using finished)).trans ?_
        refine (tickSettlement_evolves _ now).trans ?_
        refine (tickGiveUp_evolves now (by simpa using finished)).trans ?_
        exact tickAbandon_evolves now (by simpa using finished)
      rw [(timed.1.later_of_evolves rest).2.cause terminated]
      have waits : runner.timeoutAt.isSome = true := by
        obtain ⟨instant, same, _⟩ := reached_iff.mp due
        simp [same]
      have running := consistent.life.timeoutStops waits
      have first := consistent.life.timeout waits
      unfold tickTimeout
      rw [if_pos due, @terminate_of_none { runner with timeoutAt := none } now .timedOut first]
      simp only
      split <;> simp [Runner.endGrace, beginTermination, running]
    · left
      rwa [tickTimeout, if_neg due] at terminated

theorem detach_detached (unfinished : finished runner = false) (now : Instant) (cause : Cause) :
    (runner.detach now cause).detached = true := by
  unfold detach
  simp only [tick_finished, unfinished, Bool.false_or]
  split
  · assumption
  · rfl

theorem exited_terminatedAt (runner : Runner) (now : Instant) (status : Option Status) :
    (runner.exited now status).terminatedAt = runner.terminatedAt := by
  have ticked : ({ runner with timeoutAt := none }.tick now).terminatedAt =
      runner.terminatedAt := by
    by_cases finished : runner.finished = true
    · simp [tick, finished]
    · exact @tick_terminatedAt { runner with timeoutAt := none } now
        (Bool.eq_false_iff.mpr finished)
  unfold exited
  simp only
  split
  · exact ticked
  · rw [recordExit_eq]
    exact (closeInput_terminatedAt _).trans ticked

/-- A call of the adapter that ends the execution names its cause, or leaves
the peer. -/
theorem act_terminates (consistent : Consistent runner) (call : LocalCall)
    (terminated : (runner.act call).1.terminatedAt.isSome = true) :
    runner.terminatedAt.isSome = true ∨ (runner.act call).1.cause.isSome = true ∨
      (runner.act call).1.detached = true := by
  have detaching (now : Instant) (cause : Cause)
      (terminated : (runner.detach now cause).terminatedAt.isSome = true) :
      runner.terminatedAt.isSome = true ∨ (runner.detach now cause).cause.isSome = true ∨
        (runner.detach now cause).detached = true := by
    cases finished : runner.finished with
    | true =>
      left
      have same : runner.detach now cause = runner := by
        simp [detach, tick, finished]
      rwa [same] at terminated
    | false => exact .inr (.inr (detach_detached finished now cause))
  cases ticks : (Call.act call).ticks runner.key with
  | none =>
    left
    rw [← (Untimed.act consistent ticks).terminatedAt]
    exact terminated
  | some instant =>
    cases call with
    | tick now =>
      exact (tick_terminates consistent now terminated).imp_right .inl
    | exited now status =>
      left
      rw [← runner.exited_terminatedAt now status]
      exact terminated
    | dropped now => exact detaching now .dropped terminated
    | reset now => exact detaching now .reset terminated
    | disconnect now => exact detaching now .disconnected terminated
    | _ => simp [Call.ticks] at ticks

theorem finished_kept (start : Runner) : Kept fun runner =>
    runner.finished = true ∧ runner.detached = start.detached ∧ runner.cause = start.cause := by
  refine ControlKept.kept ⟨fun change _ held => ?_, fun report _ _ held => ?_,
    fun held _ _ _ _ _ _ _ => held⟩ fun emits _ held => ?_
  · cases change with
    | leavePeer now ending unfinished | terminate now cause first unfinished =>
      simp [held.1] at unfinished
    | _ => exact held
  · cases report <;> exact held
  · cases emits with
    | terminal outcome unfinished => simp [held.1] at unfinished
    | _ => exact held

theorem launched_in_time (key : Key) (limits : Limits) (timers : Timers)
    (now : Instant) (calls : List Call) {result : Except LaunchFailure Unit} :
    let start := Runner.new key limits timers now
    (machine.after start calls).launch = some result →
      ∃ before rest, calls = before ++ .act (.launched result) :: rest ∧
        (machine.after start before).awaitsLaunch = true := by
  intro start
  have initial : start.Consistent := .new key limits timers now
  induction calls using List.reverseRecOn with
  | nil => simp [start, Runner.new]
  | append_singleton calls call induction =>
    intro launched
    rw [machine.after_concat, machine_step, (initial.after calls).step_launch call] at launched
    split at launched
    · rename_i awaits
      rw [launch_eq_none_of_awaitsLaunch awaits, Option.or_none] at launched
      unfold launchOf at launched
      split at launched
      · rename_i reported _ same
        obtain ⟨rfl, -⟩ := Prod.mk.inj same
        obtain rfl := Option.some.inj launched
        exact ⟨calls, [], rfl, awaits⟩
      · simp at launched
    · obtain ⟨before, rest, rfl, awaits⟩ := induction launched
      exact ⟨before, rest ++ [call], by simp, awaits⟩

/-- A runner that calls its execution reusable was settled in time, and was told
of the launch while it awaited it. -/
theorem settled_of_reusable (key : Key) (limits : Limits) (timers : Timers)
    (now : Instant) {calls : List Call} {outcome : Outcome} :
    let start := Runner.new key limits timers now
    .terminal outcome ∈ messages (machine.trace start calls) → outcome.reusable = true →
      (∃ before rest exit, calls = before ++ .act (.settled .settled) :: rest ∧
        firstExit (machine.trace start before) = some exit ∧
        outcome.status = exit.2 ∧
        ∀ call ∈ sinceExit before, ∀ now, call.ticks key = some now →
          reached (after exit.1 timers.settlement) now = false) ∧
      ∃ before rest result, calls = before ++ .act (.launched result) :: rest ∧
        firstLaunch (machine.trace start before) = none ∧
        (machine.after start before).gaveUp = false ∧
        (machine.after start before).launchAbandoned = false ∧
        ∀ failure, outcome.launchFailure = some failure ↔ result = .error failure := by
  intro start member reusable
  have initial : start.Consistent := .new key limits timers now
  obtain ⟨made, call, last, rfl, _, _, concluded, rfl, _, _⟩ :=
    exists_conclusion initial member
  have life := (initial.after made).life
  have settled : (machine.after start made).settling = .settled :=
    of_decide_eq_true reusable
  have fenced {holds : Prop} (fenced : (machine.after start made).settling = .fenced) : holds := by
    simp [settled] at fenced
  have ongoing : (machine.after start made).gaveUp = false :=
    Bool.eq_false_iff.mpr fun gaveUp => fenced (life.gaveUp gaveUp).2.1
  constructor
  · obtain ⟨before, rest, exit, rfl, first, early⟩ :=
      settled_in_time key limits timers now made settled
    refine ⟨before, rest ++ call :: last, exit, by simp, first, ?_, early⟩
    rcases exit_eq_firstExit key limits timers now
        (before ++ .act (.settled .settled) :: rest) with gaveUp | same
    · exact absurd gaveUp (Bool.eq_false_iff.mp ongoing)
    · rw [machine.trace_append, firstExit, List.findSome?_append] at same
      change List.findSome? exitOf (machine.trace start before) = some exit at first
      simp [report, start, same, first]
  · have kept : (machine.after start made).launchAbandoned = false :=
      Bool.eq_false_iff.mpr fun abandoned =>
        fenced (life.launchAbandoned abandoned).2
    have launched : (machine.after start made).launch.isSome = true := by
      simpa [awaitsLaunch, ongoing, kept] using concluded.launched
    obtain ⟨result, known⟩ := Option.isSome_iff_exists.mp launched
    obtain ⟨before, rest, rfl, awaits⟩ :=
      launched_in_time key limits timers now made known
    have unlaunched :=
      (launch_eq_firstLaunch key limits timers now before).2 awaits
    simp only [awaitsLaunch, Bool.and_eq_true, Bool.not_eq_true'] at awaits
    refine ⟨before, rest ++ call :: last, result, by simp, unlaunched,
      awaits.1.2, awaits.2, fun failure => ?_⟩
    cases result <;> simp [report, launchFailure, known]

end Runner

namespace Peer

/-- The outcome that the peer returns once its sinks took what it holds. -/
def verdict (peer : Peer) : Option Outcome :=
  peer.baseOutcome.map peer.markOutcome

/-- A peer that gave its runner up before a terminal outcome came has its
verdict. -/
theorem verdict_tick (consistent : Consistent peer)
    (ignores : peer.ignoresRunner = true) (running : peer.terminal = none)
    (now : Instant) : (peer.tick now).verdict = peer.verdict := by
  have chain := peer.tick_evolves now
  have later := (Later.kept peer).toLocallyKept.evolves chain (.refl peer)
  have framed := Framed.evolves chain
  have left : peer.detached = true ∨ peer.gaveUp = true := by
    simp only [ignoresRunner, Bool.or_eq_true] at ignores
    rcases ignores with (finished | detached) | gaveUp
    · have known := consistent.life.finished finished
      rw [baseOutcome_isSome_iff, running] at known
      simpa using known
    · exact .inl detached
    · exact .inr gaveUp
  have still : (peer.tick now).detached = true ∨
      (peer.tick now).gaveUp = true := left.imp later.detached later.gaveUp
  have terminated : peer.terminatedAt.isSome = true :=
    left.elim consistent.life.detached fun gaveUp =>
      (consistent.life.gaveUp gaveUp).1
  have base {peer : Peer} (running : peer.terminal = none)
      (left : peer.detached = true ∨ peer.gaveUp = true) : peer.baseOutcome =
        some (((Outcome.new none).withTruncated .stdout).withTruncated .stderr) := by
    simp [baseOutcome, running, left]
  unfold verdict
  rw [base (framed.terminal.trans running) still, base running left]
  simp only [Option.map_some, markOutcome_eq, later.cause terminated]
  congr 2
  funext stream
  cases stream <;> simp [Outcome.withTruncated]

theorem exists_terminal {outcome : Outcome}
    (ended : Peer.outcome peer = some outcome) (reusable : outcome.reusable = true) :
    ∃ terminal, peer.terminal = some terminal ∧ outcome = peer.markOutcome terminal := by
  obtain ⟨_, base, told, rfl⟩ := outcome_eq_some_iff.mp ended
  unfold baseOutcome at told
  split at told
  · rename_i terminal same
    obtain rfl := Option.some.inj told
    exact ⟨terminal, same, rfl⟩
  · split at told
    · obtain rfl := Option.some.inj told
      simp [markOutcome_eq, Outcome.withTruncated, Outcome.new] at reusable
    · simp at told

theorem truncated_of_uncaused (consistent : Consistent peer)
    {terminal : Outcome} (ended : peer.terminal = some terminal)
    (uncaused : (peer.markOutcome terminal).cause = none) (stream : Stream) :
    (peer.markOutcome terminal).isTruncated stream =
      terminal.isTruncated stream := by
  simp only [markOutcome_eq, Option.or_eq_none_iff] at uncaused
  simp only [markOutcome_eq, Outcome.isTruncated]
  cases marked : (peer.outputs stream).truncated with
  | false => simp
  | true =>
    have terminated := (consistent.outputs stream).truncated marked
    rcases consistent.life.terminated terminated with
      caused | ⟨outcome, same, caused⟩
    · simp [uncaused.2] at caused
    · obtain rfl := Option.some.inj (ended.symm.trans same)
      simp [uncaused.1] at caused

end Peer

namespace System

structure Blamed (system : System) : Prop where
  cancels : ∀ cause, .cancel cause ∈ system.toRunner → system.peer.cause.isSome = true
  terminated : system.runner.terminatedAt.isSome = true →
    system.runner.cause.isSome = true ∨ system.runner.detached = true ∨
      system.peer.cause.isSome = true
  attached : (∃ outcome, .terminal outcome ∈ system.toPeer) ∨ system.peer.terminal.isSome = true →
    system.runner.finished = true ∧ system.runner.detached = false

theorem Paired.cause_isSome (paired : system.Paired limits) (steps : Steps system next event)
    (caused : system.peer.cause.isSome = true) :
    next.peer.cause.isSome = true := by
  rw [(paired.later_peer steps).cause (paired.peer.life.cause caused)]
  exact caused

theorem Blamed.cancels_steps (blamed : system.Blamed)
    (paired : system.Paired limits) (steps : Steps system next event) :
    ∀ cause, .cancel cause ∈ next.toRunner → next.peer.cause.isSome = true := by
  intro cause member
  have earlier (member : .cancel cause ∈ system.toRunner) :=
    paired.cause_isSome steps (blamed.cancels cause member)
  cases steps with
  | peerSends capacity =>
    rcases List.mem_append.mp member with before | last
    · exact earlier before
    · have emits := paired.peer.emits capacity
      rw [Option.mem_toList] at last
      rw [Option.mem_def.mp last] at emits
      simp only
      generalize (system.peer.nextMessage capacity).1 = sender at emits
      cases emits with
      | cancel speaks waiting => exact paired.peer.life.cancel waiting
  | runnerReceives now message rest delivered =>
    exact earlier (delivered ▸ List.mem_cons_of_mem _ member)
  | _ => exact earlier member

theorem Blamed.terminated_steps (blamed : system.Blamed)
    (paired : system.Paired limits) (steps : Steps system next event)
    (terminated : next.runner.terminatedAt.isSome = true) :
    next.runner.cause.isSome = true ∨ next.runner.detached = true ∨
      next.peer.cause.isSome = true := by
  have later := paired.later_runner steps
  have earlier (terminated : system.runner.terminatedAt.isSome = true) :
      next.runner.cause.isSome = true ∨ next.runner.detached = true ∨
        next.peer.cause.isSome = true := by
    rw [later.cause terminated]
    exact (blamed.terminated terminated).imp_right
      (Or.imp later.detached (paired.cause_isSome steps))
  cases steps with
  | runnerActs call =>
    rcases Runner.act_terminates paired.runner call terminated with
      before | caused | detached
    · exact earlier before
    · exact .inl caused
    · exact .inr (.inl detached)
  | runnerSends capacity =>
    apply earlier
    have untimed := @Runner.Untimed.of_silent (.nextMessage capacity)
      system.runner paired.runner rfl
    rw [← untimed.terminatedAt]
    exact terminated
  | runnerReceives now message rest delivered =>
    by_cases silent : (Runner.Call.receive now system.peer.key message).ticks
        system.runner.key = none
    · apply earlier
      rw [← (Runner.Untimed.receive silent).terminatedAt]
      exact terminated
    · cases message with
      | cancel cause =>
        exact .inr (.inr (blamed.cancels cause (delivered ▸ List.mem_cons_self)))
      | _ => exact absurd rfl silent
  | _ => exact earlier terminated

theorem Blamed.attached_steps (blamed : system.Blamed)
    (paired : system.Paired limits) (steps : Steps system next event)
    (known : (∃ outcome, .terminal outcome ∈ next.toPeer) ∨
      next.peer.terminal.isSome = true) :
    next.runner.finished = true ∧ next.runner.detached = false := by
  have earlier (known : (∃ outcome, .terminal outcome ∈ system.toPeer) ∨
      system.peer.terminal.isSome = true) :
      next.runner.finished = true ∧ next.runner.detached = false := by
    have held := blamed.attached known
    rcases steps.runner with ⟨call, stepped, _⟩ | ⟨same, _⟩
    · rw [stepped]
      have kept := (Runner.finished_kept system.runner).step
        paired.runner.sound.opened_lt call ⟨held.1, rfl, rfl⟩
      exact ⟨kept.1, kept.2.1.trans held.2⟩
    · rwa [same]
  cases steps with
  | peerActs call =>
    have framed := Peer.Framed.act system.peer call
    apply earlier
    rw [← framed.terminal]
    exact known
  | runnerSends capacity =>
    rcases known with ⟨outcome, member⟩ | ended
    · rcases List.mem_append.mp member with before | last
      · exact earlier (.inl ⟨outcome, before⟩)
      · have emits := paired.runner.emits capacity
        have returned := mem_of_posted last
        have attached : system.runner.detached = false := by
          by_contra detached
          simp [returned, posted, detached] at last
        rw [returned] at emits
        simp only
        generalize (system.runner.nextMessage capacity).1 = sender at emits
        cases emits with
        | terminal => exact ⟨rfl, attached⟩
    · exact earlier (.inr ended)
  | peerSends capacity =>
    have emits := paired.peer.emits capacity
    apply earlier
    rw [← emits.terminal_eq]
    exact known
  | peerReceives now message rest delivered =>
    apply earlier
    rw [delivered]
    rcases known with ⟨outcome, member⟩ | ended
    · exact .inl ⟨outcome, List.mem_cons_of_mem _ member⟩
    · rcases system.peer.receive_terminal now system.runner.key message with
        same | ⟨outcome, rfl, _⟩
      · exact .inr (same ▸ ended)
      · exact .inl ⟨outcome, List.mem_cons_self⟩
  | _ => exact earlier known

theorem Blamed.after (sound : start.Sound limits) (blamed : start.Blamed) (calls : List Call) :
    (machine.after start calls).Blamed :=
  machine.invariant (fun _ system => system.Blamed) blamed (fun calls call blamed =>
      have paired := (sound.after calls).paired
      have steps := step_steps (machine.after start calls) call
      ⟨blamed.cancels_steps paired steps, blamed.terminated_steps paired steps,
        blamed.attached_steps paired steps⟩) calls

theorem Blamed.new (key : Key) (limits : Limits)
    (runnerTimers peerTimers : Timers) (runnerStart peerStart : Instant) :
    (System.new key limits runnerTimers peerTimers runnerStart peerStart).Blamed := by
  constructor <;> simp [System.new, Runner.new, Peer.new]

section Runs

variable (key : Key) (limits : Limits) (runnerTimers peerTimers : Timers)
  (runnerStart peerStart : Instant)

theorem terminatedAt_eq_none (calls : List Call) {terminal : Outcome} :
    let start := System.new key limits runnerTimers peerTimers runnerStart peerStart
    (machine.after start calls).peer.terminal = some terminal →
      terminal.cause = none → (machine.after start calls).peer.cause = none →
        (machine.after start calls).runner.terminatedAt = none := by
  intro start ended uncaused unasked
  have sound : start.Sound limits :=
    .new key limits runnerTimers peerTimers runnerStart peerStart
  have blamed := Blamed.after sound (.new key limits runnerTimers peerTimers
    runnerStart peerStart) calls
  have member := (Sourced.after sound rfl rfl calls).terminal terminal ended
  obtain ⟨runnerCalls, reached, seen⟩ := exists_runner_run start calls
  rw [seen] at member
  obtain ⟨before, call, rest, rfl, _, _, _, rfl, _, finishes⟩ :=
    Runner.exists_conclusion sound.paired.runner member
  have consistent := sound.paired.runner.after before
  have kept := ((Runner.finished_kept
    (Runner.machine.after start.runner before)).mono fun _ => trivial).after
    (consistent.step call) (by rw [finishes]; exact ⟨rfl, rfl, rfl⟩) rest
  have cause : (machine.after start calls).runner.cause = none := by
    rw [reached, Runner.machine.after_append]
    exact kept.2.2.trans uncaused
  have attached := (blamed.attached (.inr (Option.isSome_of_eq_some ended))).2
  by_contra terminated
  rcases blamed.terminated (Option.isSome_iff_ne_none.mpr terminated) with
    caused | detached | asked
  · simp [cause] at caused
  · simp [attached] at detached
  · simp [unasked] at asked

theorem Sound.verdict_receives {limits : Limits} {system : System} (sound : system.Sound limits)
    (ignores : system.peer.ignoresRunner = true) (now : Instant) :
    (system.step (.peerReceives now)).1.peer.verdict =
      system.peer.verdict := by
  unfold step
  cases delivered : system.toPeer with
  | nil => rfl
  | cons message rest =>
    have running : system.peer.terminal = none := by
      by_contra ended
      rw [sound.ordered.toPeer_eq_nil (Option.isSome_iff_ne_none.mpr ended)] at delivered
      simp at delivered
    change (system.peer.receive now system.runner.key message).1.verdict = _
    rcases Peer.receive_of_ignores ignores now system.runner.key message with
      same | ticks
    · rw [same]
    · rw [ticks]
      exact Peer.verdict_tick sound.paired.peer ignores running now

/-- A workload that ends on its own loses nothing.  Without a termination the
runner's outcome names no cause and the first exit's status, and marks a stream
of which no byte was reported lost only if it abandoned it.  A reusable outcome
without cause marks no other stream. -/
theorem workload_ending_on_its_own_loses_nothing : (∀ calls outcome,
      let start := Runner.new key limits runnerTimers runnerStart
      let trace := Runner.machine.trace start calls
      (Runner.machine.after start calls).terminatedAt = none →
      .terminal outcome ∈ Runner.messages trace → outcome.cause = none ∧
        (∃ exit, Runner.firstExit trace = some exit ∧ outcome.status = exit.2) ∧
        ∀ stream, (∀ event ∈ trace, Runner.loses stream event = false) →
          outcome.isTruncated stream = true → outcome.reusable = false ∧
              Runner.LeftOpen key limits runnerTimers runnerStart stream calls) ∧
    ∀ calls outcome stream,
      let start := System.new key limits runnerTimers peerTimers runnerStart peerStart
      (machine.after start calls).peer.nextEvent.2 = some (.finished outcome) →
      outcome.cause = none → outcome.reusable = true →
      outcome.isTruncated stream = true → ∃ event ∈ runnerTrace (machine.trace start calls),
          Runner.loses stream event = true := by
  refine ⟨Runner.ended_on_its_own key limits runnerTimers runnerStart, ?_⟩
  intro calls outcome stream start finished uncaused reusable truncated
  have sound : start.Sound limits :=
    .new key limits runnerTimers peerTimers runnerStart peerStart
  have paired := (sound.after calls).paired
  have tells := (machine.after start calls).peer.nextEvent_tells
  rw [finished] at tells
  obtain ⟨terminal, ended, rfl⟩ :=
    Peer.exists_terminal tells.outcome_eq reusable
  have member := (Sourced.after sound rfl rfl calls).terminal terminal ended
  obtain ⟨runnerCalls, reached, seen⟩ := exists_runner_run start calls
  have causes : terminal.cause = none ∧ (machine.after start calls).peer.cause = none := by
    simpa only [Peer.markOutcome_eq, Option.or_eq_none_iff] using uncaused
  have undisturbed := terminatedAt_eq_none key limits runnerTimers peerTimers
    runnerStart peerStart calls ended causes.1 causes.2
  rw [Peer.truncated_of_uncaused paired.peer ended uncaused] at truncated
  rw [seen] at member ⊢
  rw [reached] at undisturbed
  have own := (Runner.ended_on_its_own key limits runnerTimers runnerStart
    runnerCalls terminal undisturbed member).2.2 stream
  by_contra lossless
  have fenced := (own (fun event present => by
    by_contra loses
    exact lossless ⟨event, present, by simpa using loses⟩) truncated).1
  simp only [Peer.markOutcome_eq] at reusable
  simp [fenced] at reusable

/-- Reuse is never forged: a reusable outcome is that of a workload which was
settled in time after its exit and whose launch result came while the runner
awaited it, and it tells the first of both.  Once the peer ignores its runner,
no message changes what it returns. -/
theorem reuse_is_never_forged (calls : List Call) :
    let start := System.new key limits runnerTimers peerTimers runnerStart peerStart
    let runnerCalls := (runnerTrace (machine.trace start calls)).map Prod.fst
    let runnerTrace (calls : List Runner.Call) :=
      Runner.machine.trace start.runner calls
    (∀ outcome, (machine.after start calls).peer.nextEvent.2 = some (.finished outcome) →
      outcome.reusable = true → (∃ before rest exit,
          runnerCalls = before ++ .act (.settled .settled) :: rest ∧
          Runner.firstExit (runnerTrace before) = some exit ∧
          outcome.status = exit.2 ∧
          ∀ call ∈ Runner.sinceExit before, ∀ now, call.ticks key = some now →
              reached (after exit.1 runnerTimers.settlement) now = false) ∧
        ∃ before rest result, runnerCalls = before ++ .act (.launched result) :: rest ∧
          Runner.firstLaunch (runnerTrace before) = none ∧
          (Runner.machine.after start.runner before).gaveUp = false ∧
          (Runner.machine.after start.runner before).launchAbandoned = false ∧
          ∀ failure, outcome.launchFailure = some failure ↔ result = .error failure) ∧
    ((machine.after start calls).peer.ignoresRunner = true → ∀ more now,
        let later := machine.after start (calls ++ more)
        (later.step (.peerReceives now)).1.peer.verdict = later.peer.verdict) := by
  intro start runnerCalls runnerTrace
  have sound : start.Sound limits :=
    .new key limits runnerTimers peerTimers runnerStart peerStart
  constructor
  · intro outcome finished reusable
    have tells := (machine.after start calls).peer.nextEvent_tells
    rw [finished] at tells
    obtain ⟨terminal, ended, rfl⟩ :=
      Peer.exists_terminal tells.outcome_eq reusable
    have member := (Sourced.after sound rfl rfl calls).terminal terminal ended
    obtain ⟨made, _, seen⟩ := exists_runner_run start calls
    have same : runnerCalls = made := by
      simp only [runnerCalls, seen, Runner.machine.map_fst_trace]
    rw [seen] at member
    rw [Peer.markOutcome_eq] at reusable ⊢
    rw [same]
    have own := Runner.settled_of_reusable key limits runnerTimers runnerStart member reusable
    exact own
  · intro ignores more now
    have reached := sound.after calls
    obtain ⟨made, seen, _⟩ := exists_peer_run (machine.after start calls) more
    have later := reached.paired.peer.later_after made
    rw [← seen] at later
    rw [machine.after_append]
    exact (reached.after more).verdict_receives (later.ignoresRunner ignores) now

/-- The peer returns the outcome that its runner returned, with what it adds itself,
unless it left its runner or gave it up before; and an outcome names a cause
exactly if an ending began on one of the sides. -/
theorem sides_agree_on_the_outcome (calls : List Call) :
    let start := System.new key limits runnerTimers peerTimers runnerStart peerStart
    let system := machine.after start calls
    (∀ outcome, system.peer.nextEvent.2 = some (.finished outcome) →
      ∃ base, outcome = system.peer.markOutcome base ∧
        ((system.peer.detached = true ∨ system.peer.gaveUp = true) ∧
            base = ((Outcome.new none).withTruncated .stdout).withTruncated .stderr ∨
          .terminal base ∈ Runner.messages (runnerTrace (machine.trace start calls)) ∧
            system.runner.finished = true ∧ system.runner.detached = false)) ∧
    ∀ outcome, system.peer.nextEvent.2 = some (.finished outcome) → (outcome.cause = none ↔
      system.runner.terminatedAt = none ∧ system.peer.terminatedAt = none) := by
  intro start system
  rw [← forall₂_and]
  intro outcome finished
  have initial : start.Sound limits :=
    .new key limits runnerTimers peerTimers runnerStart peerStart
  have life : system.peer.Lifecycle := (initial.after calls).paired.peer.life
  have tells := system.peer.nextEvent_tells
  rw [finished] at tells
  obtain ⟨_, base, told, rfl⟩ := Peer.outcome_eq_some_iff.mp tells.outcome_eq
  simp only [Peer.markOutcome_eq, Option.or_eq_none_iff]
  unfold Peer.baseOutcome at told
  split at told
  · rename_i terminal ended
    obtain rfl := Option.some.inj told
    have blamed := Blamed.after initial (.new key limits runnerTimers peerTimers
      runnerStart peerStart) calls
    have attached := blamed.attached (.inr (Option.isSome_of_eq_some ended))
    have member := (Sourced.after initial rfl rfl calls).terminal terminal ended
    refine ⟨⟨terminal, rfl, .inr ⟨member, attached⟩⟩, ?_⟩
    obtain ⟨runnerCalls, reached, seen⟩ := exists_runner_run start calls
    rw [seen] at member
    constructor
    · rintro ⟨uncaused, unasked⟩
      refine ⟨terminatedAt_eq_none key limits runnerTimers peerTimers runnerStart peerStart calls
        ended uncaused unasked, Option.not_isSome_iff_eq_none.mp fun terminated => ?_⟩
      simpa [unasked, ended, uncaused] using life.terminated terminated
    · rintro ⟨undisturbed, unended⟩
      rw [reached] at undisturbed
      have own := Runner.ended_on_its_own key limits runnerTimers runnerStart runnerCalls
        terminal undisturbed member
      refine ⟨own.1, Option.not_isSome_iff_eq_none.mp fun asked => ?_⟩
      simpa [unended] using life.cause asked
  · rename_i running
    split at told
    · rename_i left
      obtain rfl := Option.some.inj told
      have left : system.peer.detached = true ∨ system.peer.gaveUp = true := by simpa using left
      have began := left.elim life.detached fun gaveUp => (life.gaveUp gaveUp).1
      have caused := (life.terminated began).resolve_right (by simp [running])
      refine ⟨⟨_, rfl, .inl ⟨left, rfl⟩⟩, iff_of_false (fun none => ?_) fun none => ?_⟩
      · simp [none.2] at caused
      · simp [none.2] at began
    · cases told

end Runs

end System

end Nvx.Exec
