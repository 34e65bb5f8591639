import Nvx.Exec.Runner
import Mathlib.Logic.Relation

namespace Nvx.Exec.Runner

open Nvx.Data

/-! The elementary changes of a runner.  Every call is a chain of those that it
makes itself and at most one that its adapter reports, so an invariant is proved
once for each change and holds across every call. -/

/-- The changes of an output stream that a call of its adapter reports. -/
inductive Output.Change (current : Output) (stream : Stream) : LocalCall → Output → Prop
  | discarded (bytes : Nat) :
      Output.Change current stream (.discarded stream bytes) { current with
        truncated := current.truncated || decide (0 < bytes) }
  | closed : Output.Change current stream (.outputClosed stream) { current with closed := true }
  | failed : Output.Change current stream (.outputFailed stream)
        { current with closed := true, truncated := true }
  | hungUp : Output.Change current stream (.outputHungUp stream) { current with hungUp := true }

def beginTermination (runner : Runner) (now : Instant) (cause : Cause) :
    Runner :=
  { runner with
    terminatedAt := some now
    timeoutAt := none
    cause := if runner.exit.isNone then some cause else runner.cause
    terminateRequest :=
      if runner.exit.isNone then some cause else runner.terminateRequest
    graceUntil := after now runner.timers.grace
    giveUpAt := (after now runner.timers.grace).bind fun grace =>
      after grace runner.timers.settlement }

def beginSettlement (runner : Runner) (now : Instant) (status : Option Status) : Runner :=
  { runner with
    exit := some status
    settleRequest := true
    settling := .requested (after now runner.timers.settlement)
    abandonAt := (after now runner.timers.settlement).bind fun instant =>
      after instant runner.timers.grace }

def leavePeer (runner : Runner) (now : Instant) : Runner :=
  { runner with
    detached := true
    startedMessage := false
    input := { runner.input with closedMessage := false }
    giveUpAt := earliest runner.giveUpAt (after now runner.timers.settlement) }

def Output.Silent (output : Output) : Prop :=
  output.queue = [] ∧ (output.closed = true ∨ output.discarding = true)

inductive Change (runner : Runner) : Runner → Prop
  | stopTimeout : Change runner { runner with timeoutAt := none }
  | closeInput (stillOpen : runner.input.closed = false) :
      Change runner (runner.setInput { runner.input with
        closed := true
        inbox := runner.input.inbox.clear.1
        closedMessage := !runner.input.peerEnded && !runner.detached })
  | requestClose (peerEnded : runner.input.peerEnded = true)
      (stillOpen : runner.input.closed = false)
      (empty : runner.input.inbox.bytes = []) :
      Change runner (runner.setInput { runner.input with
        closed := true
        closeRequested := true })
  | terminate (now : Instant) (cause : Cause) (first : runner.terminatedAt = none)
      (unfinished : runner.finished = false)
      (closed : runner.input.closed = true) :
      Change runner (runner.beginTermination now cause)
  | endGrace (ending : runner.graceUntil.isSome = true ∨ runner.terminatedAt.isSome = true)
      (unfinished : runner.finished = false) :
      Change runner runner.endGrace
  | fence (awaited : runner.settling = .requested by_) :
      Change runner { runner with settling := .fenced }
  | keepWaiting (clean : runner.isCleanedUp = true) : Change runner { runner with giveUpAt := none }
  | giveUp (waiting : runner.giveUpAt.isSome = true) (unfinished : runner.finished = false)
      (unclean : runner.isCleanedUp = false) :
      Change runner runner.giveUp
  | abandonLaunch (awaited : runner.awaitsLaunch = true) (waiting : runner.abandonAt.isSome = true)
      (unfinished : runner.finished = false) :
      Change runner runner.abandonLaunch
  | abandonOpenStreams (fenced : runner.settling = .fenced)
      (waiting : runner.abandonAt.isSome = true)
      (unfinished : runner.finished = false) :
      Change runner runner.abandonOpenStreams
  | leavePeer (now : Instant) (ending : runner.terminatedAt.isSome = true)
      (unfinished : runner.finished = false)
      (silent : ∀ stream, (runner.outputs stream).Silent) :
      Change runner (runner.leavePeer now)

inductive Report (runner : Runner) : LocalCall → Runner → Prop
  | launched (awaited : runner.awaitsLaunch = true) :
      Report runner (.launched (.ok ())) { runner with
        launch := some (.ok ())
        startedMessage := !runner.detached }
  | launchFailed (awaited : runner.awaitsLaunch = true) (failure : LaunchFailure) :
      Report runner (.launched (.error failure)) { runner with launch := some (.error failure) }
  | exit (now : Instant) (status : Option Status)
      (first : runner.exit = none) (ongoing : runner.gaveUp = false)
      (closed : runner.input.closed = true)
      (stopped : runner.timeoutAt = none) :
      Report runner (.exited now status) (runner.beginSettlement now status)
  | settle (awaited : runner.settling = .requested by_) :
      Report runner (.settled .settled) { runner with settling := .settled }
  | setOutput (stream : Stream) (call : LocalCall) (next : Output)
      (change : Output.Change (runner.outputs stream) stream call next) :
      Report runner call (runner.setOutput stream next)

abbrev Evolves : Runner → Runner → Prop := Relation.ReflTransGen Change

open Relation in
theorem Evolves.preserves {holds : Runner → Prop}
    (step : ∀ runner next, Change runner next → holds runner → holds next)
    (evolves : Evolves runner next) (held : holds runner) : holds next := by
  induction evolves with
  | refl => exact held
  | tail _ change induction => exact step _ _ change induction

theorem Output.endGrace_eq (output : Output) :
    output.endGrace = { output with
      queue := []
      discarding := output.discarding || !output.closed
      discardRequested := output.discardRequested || (!output.closed && !output.discarding)
      truncated := output.truncated || !output.queue.isEmpty } := by
  unfold Output.endGrace Output.dropQueue
  cases closed : output.closed <;> cases discarding : output.discarding <;> simp

theorem Output.giveUp_eq (output : Output) :
    output.giveUp = { output with
      queue := []
      closed := true
      truncated := output.truncated || !output.queue.isEmpty ||
        !output.closed } := by
  unfold Output.giveUp Output.dropQueue
  cases closed : output.closed <;> simp

theorem Output.abandon_eq (output : Output) :
    output.abandon = { output with
      closed := output.closed || !output.hungUp
      truncated := output.truncated ||
        (!output.closed && !output.hungUp) } := by
  obtain ⟨queue, closed, hungUp, _, _, _, _⟩ := output
  cases closed <;> cases hungUp <;> simp [Output.abandon]

theorem Output.endGrace_silent (output : Output) : output.endGrace.Silent := by
  rw [Output.endGrace_eq]
  cases output.closed <;> simp [Output.Silent]

theorem closeInput_evolves (runner : Runner) : Evolves runner runner.closeInput := by
  unfold closeInput
  split
  · exact .refl
  · rename_i stillOpen
    exact .single (.closeInput (Bool.eq_false_iff.mpr stillOpen))

theorem closeInput_closed (runner : Runner) : runner.closeInput.input.closed = true := by
  unfold closeInput
  split
  · assumption
  · rfl

theorem closeInputWhenTaken_evolves (runner : Runner) :
    Evolves runner runner.closeInputWhenTaken := by
  unfold closeInputWhenTaken
  split
  · rename_i taken
    simp only [Bool.and_eq_true, Bool.not_eq_true', List.isEmpty_iff] at taken
    exact .single (.requestClose taken.1.1 taken.1.2 taken.2)
  · exact .refl

theorem closeInput_eq (runner : Runner) : runner.closeInput =
      { runner with input := runner.closeInput.input } := by
  unfold closeInput
  split <;> rfl

theorem terminate_of_none {runner : Runner} (now : Instant) (cause : Cause)
    (first : runner.terminatedAt = none) :
    runner.terminate now cause =
      let begun := runner.closeInput.beginTermination now cause
      if reached begun.graceUntil now then begun.endGrace else begun := by
  have commutes :
      ({ runner with terminatedAt := some now, timeoutAt := none
        }.requestTermination cause).closeInput.startGrace now =
      runner.closeInput.beginTermination now cause := by
    unfold beginTermination requestTermination closeInput
    cases closed : runner.input.closed <;> cases exited : runner.exit <;>
      simp [closed, exited, setInput, startGrace]
  simp only [terminate, first, Option.isSome_none, Bool.false_eq_true, if_false, commutes]

@[simp] theorem closeInput_terminatedAt (runner : Runner) :
    runner.closeInput.terminatedAt = runner.terminatedAt := by
  rw [closeInput_eq]

@[simp] theorem closeInput_finished (runner : Runner) :
    runner.closeInput.finished = runner.finished := by
  rw [closeInput_eq]

@[simp] theorem closeInput_exit (runner : Runner) : runner.closeInput.exit = runner.exit := by
  rw [closeInput_eq]

@[simp] theorem closeInput_gaveUp (runner : Runner) : runner.closeInput.gaveUp = runner.gaveUp := by
  rw [closeInput_eq]

theorem terminate_evolves (now : Instant) (cause : Cause) (unfinished : runner.finished = false) :
    Evolves runner (runner.terminate now cause) := by
  cases terminated : runner.terminatedAt with
  | some instant =>
    simp only [terminate, terminated, Option.isSome_some, if_true]
    exact .refl
  | none =>
    rw [terminate_of_none now cause terminated]
    have begun : Evolves runner (runner.closeInput.beginTermination now cause) :=
      runner.closeInput_evolves.tail (.terminate now cause (by simpa using terminated)
          (by simpa using unfinished) runner.closeInput_closed)
    simp only
    split
    · exact begun.tail (.endGrace (.inr rfl) (by simpa [beginTermination] using unfinished))
    · exact begun

theorem terminate_terminatedAt (runner : Runner) (now : Instant) (cause : Cause) :
    (runner.terminate now cause).terminatedAt.isSome = true := by
  cases terminated : runner.terminatedAt with
  | some instant => simp [terminate, terminated]
  | none =>
    rw [terminate_of_none now cause terminated]
    simp only
    split <;> rfl

@[simp] theorem terminate_finished (runner : Runner) (now : Instant) (cause : Cause) :
    (runner.terminate now cause).finished = runner.finished := by
  cases terminated : runner.terminatedAt with
  | some instant => simp [terminate, terminated]
  | none =>
    rw [terminate_of_none now cause terminated]
    simp only
    split <;> simp [endGrace, beginTermination]

theorem tickTimeout_evolves (now : Instant) (unfinished : runner.finished = false) :
    Evolves runner (runner.tickTimeout now) := by
  unfold tickTimeout
  split
  · exact (Relation.ReflTransGen.single Change.stopTimeout).trans
      (terminate_evolves now .timedOut unfinished)
  · exact .refl

@[simp] theorem tickTimeout_finished (runner : Runner) (now : Instant) :
    (runner.tickTimeout now).finished = runner.finished := by
  unfold tickTimeout
  split <;> simp

theorem tickGrace_evolves (now : Instant) (unfinished : runner.finished = false) :
    Evolves runner (runner.tickGrace now) := by
  unfold tickGrace
  split
  · rename_i isReached
    obtain ⟨instant, pending, _⟩ := reached_iff.mp isReached
    exact .single (.endGrace (.inl (by simp [pending])) unfinished)
  · exact .refl

@[simp] theorem tickGrace_finished (runner : Runner) (now : Instant) :
    (runner.tickGrace now).finished = runner.finished := by
  unfold tickGrace
  split <;> rfl

theorem tickSettlement_evolves (runner : Runner) (now : Instant) :
    Evolves runner (runner.tickSettlement now) := by
  unfold tickSettlement
  split
  · rename_i awaited
    split
    · exact .single (.fence awaited)
    · exact .refl
  · exact .refl

@[simp] theorem tickSettlement_finished (runner : Runner) (now : Instant) :
    (runner.tickSettlement now).finished = runner.finished := by
  unfold tickSettlement
  split
  · split <;> rfl
  · rfl

theorem tickGiveUp_evolves (now : Instant) (unfinished : runner.finished = false) :
    Evolves runner (runner.tickGiveUp now) := by
  unfold tickGiveUp
  split
  · rename_i isReached
    obtain ⟨instant, waiting, _⟩ := reached_iff.mp isReached
    split
    · rename_i clean
      exact .single (.keepWaiting clean)
    · rename_i unclean
      exact .single (.giveUp (by simp [waiting]) unfinished
        (Bool.eq_false_iff.mpr unclean))
  · exact .refl

@[simp] theorem tickGiveUp_finished (runner : Runner) (now : Instant) :
    (runner.tickGiveUp now).finished = runner.finished := by
  unfold tickGiveUp
  split
  · split <;> rfl
  · rfl

theorem tickAbandon_evolves (now : Instant) (unfinished : runner.finished = false) :
    Evolves runner (runner.tickAbandon now) := by
  unfold tickAbandon
  split
  · rename_i isReached
    obtain ⟨instant, waiting, _⟩ := reached_iff.mp isReached
    have isWaiting : runner.abandonAt.isSome = true := by simp [waiting]
    by_cases awaited : runner.awaitsLaunch = true
    · have abandoned : Change runner runner.abandonLaunch :=
        .abandonLaunch awaited isWaiting unfinished
      simp only [awaited, if_true]
      rw [if_pos (by rfl)]
      exact (Relation.ReflTransGen.single abandoned).tail
        (.abandonOpenStreams rfl isWaiting unfinished)
    · simp only [awaited, Bool.false_eq_true, if_false]
      split
      · rename_i fenced
        exact .single (.abandonOpenStreams fenced isWaiting unfinished)
      · exact .refl
  · exact .refl

@[simp] theorem tickAbandon_finished (runner : Runner) (now : Instant) :
    (runner.tickAbandon now).finished = runner.finished := by
  unfold tickAbandon
  cases runner.awaitsLaunch <;> by_cases fenced : runner.settling = .fenced <;>
    cases reached runner.abandonAt now <;>
    simp [abandonLaunch, abandonOpenStreams, fenced]

@[simp] theorem tick_finished (runner : Runner) (now : Instant) :
    (runner.tick now).finished = runner.finished := by
  unfold tick
  split
  · rfl
  · simp

theorem tick_evolves (runner : Runner) (now : Instant) : Evolves runner (runner.tick now) := by
  unfold tick
  split
  · exact .refl
  · rename_i ongoing
    have unfinished : runner.finished = false := Bool.eq_false_iff.mpr ongoing
    exact (((tickTimeout_evolves now unfinished).trans
      (tickGrace_evolves now (by simpa using unfinished))).trans
        (tickSettlement_evolves _ now)).trans
          ((tickGiveUp_evolves now (by simpa using unfinished)).trans
            (tickAbandon_evolves now (by simpa using unfinished)))

theorem tick_detach_evolves (runner : Runner) (now : Instant) (cause : Cause) :
    Evolves (runner.tick now) (runner.detach now cause) := by
  unfold detach
  simp only
  split
  · exact .refl
  · rename_i ongoing
    have unfinished : (runner.tick now).finished = false := by
      simp only [Bool.or_eq_true, not_or, Bool.not_eq_true] at ongoing
      exact ongoing.1
    have ended := terminate_evolves now cause unfinished
    have ending := (runner.tick now).terminate_terminatedAt now cause
    have silenced := ended.tail (.endGrace (.inr ending) (by simpa using unfinished))
    exact silenced.tail (.leavePeer now ending (by simpa [endGrace] using unfinished)
      fun stream => Output.endGrace_silent _)

theorem detach_evolves (runner : Runner) (now : Instant) (cause : Cause) :
    Evolves runner (runner.detach now cause) :=
  (runner.tick_evolves now).trans (runner.tick_detach_evolves now cause)

theorem tick_cancel_evolves (runner : Runner) (now : Instant) (cause : Cause) :
    Evolves (runner.tick now) (runner.cancel now runner.key cause).1 := by
  simp only [cancel, Key.receive_self]
  split
  · exact .refl
  · rename_i ongoing
    simp only [Bool.or_eq_true, not_or, Bool.not_eq_true] at ongoing
    exact terminate_evolves now cause ongoing.1

theorem cancel_evolves (runner : Runner) (now : Instant) (key : Key)
    (cause : Cause) : Evolves runner (runner.cancel now key cause).1 := by
  by_cases own : key = runner.key
  · subst key
    exact (runner.tick_evolves now).trans (runner.tick_cancel_evolves now cause)
  · rw [cancel, Key.receive_of_ne own]

theorem launched_reports (runner : Runner) (result : Except LaunchFailure Unit) :
    runner.launched result = runner ∨ ∃ reported, Report runner (.launched result) reported ∧
        Evolves reported (runner.launched result) := by
  unfold launched
  split
  · exact .inl rfl
  · rename_i awaiting
    have awaited : runner.awaitsLaunch = true := by simpa using awaiting
    cases result with
    | ok value => exact .inr ⟨_, .launched awaited, .refl⟩
    | error failure =>
      exact .inr ⟨_, .launchFailed awaited failure, closeInput_evolves _⟩

theorem timeoutAt_eq_none_of_evolves
    (chain : Evolves runner next) (stopped : runner.timeoutAt = none) :
    next.timeoutAt = none := by
  induction chain with
  | refl => exact stopped
  | tail _ change induction =>
    cases change with
    | stopTimeout => rfl
    | terminate now cause => rfl
    | _ => exact induction

theorem recordExit_eq (runner : Runner) (now : Instant) (status : Option Status) :
    runner.recordExit now status =
      runner.closeInput.beginSettlement now status := by
  unfold recordExit beginSettlement closeInput
  cases closed : runner.input.closed <;> simp [closed, setInput]

theorem exited_reports (runner : Runner) (now : Instant) (status : Option Status) :
    ∃ ticked, Evolves runner ticked ∧ (runner.exited now status = ticked ∨
        Report ticked (.exited now status) (runner.exited now status)) := by
  have chain := tick_evolves { runner with timeoutAt := none } now
  have ticked : Evolves runner ({ runner with timeoutAt := none }.tick now) :=
    (Relation.ReflTransGen.single Change.stopTimeout).trans chain
  unfold exited
  simp only
  split
  · exact ⟨_, ticked, .inl rfl⟩
  · rename_i running
    rw [not_isSome_or] at running
    rw [recordExit_eq]
    exact ⟨_, ticked.trans (closeInput_evolves _), .inr (.exit now status (by simpa using running.1)
        (by simpa using running.2) (closeInput_closed _)
        (timeoutAt_eq_none_of_evolves (chain.trans (closeInput_evolves _)) rfl))⟩

theorem settled_reports (runner : Runner) (result : Settlement) :
    Evolves runner (runner.settled result) ∨
      Report runner (.settled result) (runner.settled result) := by
  unfold settled
  split
  · rename_i awaited
    exact .inr (.settle awaited)
  · rename_i awaited
    exact .inl (.single (.fence awaited))
  · exact .inl .refl

theorem output_frame (runner : Runner) (stream : Stream) (bytes : List UInt8) :
    ∃ queue truncated overflowed highWater,
      (runner.output stream bytes).1 = { runner with
        outputs := Function.update runner.outputs stream
          { runner.outputs stream with queue := queue, truncated := truncated }
        overflowed := overflowed
        highWater := highWater } := by
  unfold Runner.output
  simp only
  split
  · exact ⟨(runner.outputs stream).queue, (runner.outputs stream).truncated,
      _, _, by rw [Function.update_eq_self]⟩
  · split <;> exact ⟨_, _, _, _, rfl⟩

theorem credit_cases (runner : Runner) (key : Key) (pool : Pool) (units : Nat) :
    (runner.credit key pool units).1 = runner ∨
      ∃ index granted, (runner.credits index).grant units = .ok granted ∧
        runner.limits.outputPool pool = .ok index ∧
        runner.finished = false ∧
        (runner.credit key pool units).1 =
          { runner with
            credits := Function.update runner.credits index granted } := by
  unfold credit Key.receive
  split
  · exact .inl rfl
  · exact .inl rfl
  · cases named : runner.limits.outputPool pool with
    | error violation => exact .inl rfl
    | ok index =>
      simp only
      split
      · exact .inl rfl
      · rename_i ongoing
        cases accepted : (runner.credits index).grant units with
        | error violation => exact .inl rfl
        | ok granted =>
          exact .inr ⟨index, granted, accepted, rfl, Bool.eq_false_iff.mpr ongoing, rfl⟩

theorem receiveInput_cases (runner : Runner) (key : Key) (bytes : List UInt8) :
    (runner.receiveInput key bytes).1 = runner ∨
      ∃ window, runner.input.window.charge bytes.length = .ok window ∧
        (0 < bytes.length ∧ bytes.length ≤ runner.limits.chunk) ∧
        runner.finished = false ∧ runner.input.peerEnded = false ∧
        (runner.receiveInput key bytes).1 =
          if runner.input.closed then
            runner.setInput { runner.input with window := window }
          else
            (runner.setInput { runner.input with window := window }).holdInput
              bytes := by
  unfold receiveInput Key.receive
  split
  · exact .inl rfl
  · exact .inl rfl
  · split
    · exact .inl rfl
    · rename_i ongoing
      split
      · exact .inl rfl
      · rename_i unended
        cases sized : runner.limits.checkChunk bytes.length with
        | error violation => exact .inl rfl
        | ok value =>
          cases charged : runner.input.window.charge bytes.length with
          | error violation => exact .inl rfl
          | ok window =>
            refine .inr ⟨window, rfl, (runner.limits.checkChunk_ok_iff _).mp sized,
              Bool.eq_false_iff.mpr ongoing, Bool.eq_false_iff.mpr unended,
              ?_⟩
            cases closed : runner.input.closed <;> simp [setInput, closed]

theorem endInput_cases (runner : Runner) (key : Key) : (runner.endInput key).1 = runner ∨
      runner.finished = false ∧ runner.input.peerEnded = false ∧ (runner.endInput key).1 =
          (runner.setInput { runner.input with
            peerEnded := true }).closeInputWhenTaken := by
  unfold endInput Key.receive
  split
  · exact .inl rfl
  · exact .inl rfl
  · split
    · exact .inl rfl
    · rename_i ongoing
      split
      · exact .inl rfl
      · rename_i unended
        refine .inr ⟨Bool.eq_false_iff.mpr ongoing, Bool.eq_false_iff.mpr unended, ?_⟩
        cases closed : runner.input.closed <;>
          simp [setInput, closed, closeInputWhenTaken]

end Nvx.Exec.Runner
