import Nvx.Exec.RunnerLifecycle

namespace Nvx.Exec.Runner

open Nvx.Data

/-! What no call of a run takes back. -/

structure Output.Later (output next : Output) : Prop where
  ended : output.ended = true → next.ended = true
  closed : output.closed = true → next.closed = true
  hungUp : output.hungUp = true → next.hungUp = true
  truncated : output.truncated = true → next.truncated = true
  discarding : output.discarding = true → next.discarding = true
  discardRequested : next.discardRequested = true →
    output.discardRequested = true ∨ output.discarding = false
  silent : output.Silent → next.Silent

/-- A flag that asks for a message or a request is only raised by the event that
it belongs to, which happens once. -/
structure Later (runner next : Runner) : Prop where
  key : next.key = runner.key
  limits : next.limits = runner.limits
  timers : next.timers = runner.timers
  launch : runner.launch.isSome = true → next.launch = runner.launch
  awaitsLaunch : next.awaitsLaunch = true → runner.awaitsLaunch = true
  startedMessage : next.startedMessage = true →
    runner.startedMessage = true ∨ runner.awaitsLaunch = true
  exit : runner.exit.isSome = true → next.exit = runner.exit
  settleRequest : next.settleRequest = true → runner.settleRequest = true ∨ runner.exit = none
  fenced : runner.settling = .fenced → next.settling = .fenced
  terminatedAt : runner.terminatedAt.isSome = true →
    next.terminatedAt = runner.terminatedAt
  cause : runner.terminatedAt.isSome = true → next.cause = runner.cause
  terminateRequest : next.terminateRequest.isSome = true →
    runner.terminateRequest.isSome = true ∨ runner.terminatedAt = none
  detached : runner.detached = true → next.detached = true
  gaveUp : runner.gaveUp = true → next.gaveUp = true
  finished : runner.finished = true → next.finished = true
  inputClosed : runner.input.closed = true → next.input.closed = true
  peerEnded : runner.input.peerEnded = true → next.input.peerEnded = true
  closedMessage : next.input.closedMessage = true →
    runner.input.closedMessage = true ∨ runner.input.closed = false
  closeRequested : next.input.closeRequested = true →
    runner.input.closeRequested = true ∨ runner.input.closed = false
  outputs : ∀ stream, (runner.outputs stream).Later (next.outputs stream)

namespace Output.Later

variable {output next third : Output}

theorem refl (output : Output) : output.Later output where
  ended := id
  closed := id
  hungUp := id
  truncated := id
  discarding := id
  discardRequested := .inl
  silent := id

theorem trans (first : output.Later next) (second : next.Later third) : output.Later third where
  ended := second.ended ∘ first.ended
  closed := second.closed ∘ first.closed
  hungUp := second.hungUp ∘ first.hungUp
  truncated := second.truncated ∘ first.truncated
  discarding := second.discarding ∘ first.discarding
  discardRequested := by
    intro requested
    rcases second.discardRequested requested with earlier | kept
    · exact first.discardRequested earlier
    · right
      by_contra discarding
      simp [first.discarding (by simpa using discarding)] at kept
  silent := second.silent ∘ first.silent

theorem endGrace (output : Output) : output.Later output.endGrace := by
  have silent := output.endGrace_silent
  rw [Output.endGrace_eq] at silent ⊢
  exact { refl output with
    truncated := fun truncated => by simp [truncated]
    discarding := fun discarding => by simp [discarding]
    discardRequested := by
      cases output.discardRequested <;> cases output.discarding <;> simp
    silent := fun _ => silent }

theorem giveUp (output : Output) : output.Later output.giveUp := by
  rw [Output.giveUp_eq]
  exact { refl output with
    closed := fun _ => rfl
    truncated := fun truncated => by simp [truncated]
    silent := fun _ => ⟨rfl, .inl rfl⟩ }

theorem abandon (output : Output) : output.Later output.abandon := by
  rw [Output.abandon_eq]
  exact { refl output with
    closed := fun closed => by simp [closed]
    truncated := fun truncated => by simp [truncated]
    silent := fun silent =>
      ⟨silent.1, silent.2.imp (fun closed => by simp [closed]) id⟩ }

theorem workload (change : Output.Change output stream call next) : output.Later next := by
  cases change with
  | discarded bytes =>
    exact { refl output with truncated := fun truncated => by simp [truncated] }
  | closed =>
    exact { refl output with
      closed := fun _ => rfl
      silent := fun silent => ⟨silent.1, .inl rfl⟩ }
  | failed =>
    exact { refl output with
      closed := fun _ => rfl
      truncated := fun _ => rfl
      silent := fun silent => ⟨silent.1, .inl rfl⟩ }
  | hungUp => exact { refl output with hungUp := fun _ => rfl }

end Output.Later

namespace Later

variable {runner next third : Runner}

theorem refl (runner : Runner) : runner.Later runner where
  key := rfl
  limits := rfl
  timers := rfl
  launch := fun _ => rfl
  awaitsLaunch := id
  startedMessage := .inl
  exit := fun _ => rfl
  settleRequest := .inl
  fenced := id
  terminatedAt := fun _ => rfl
  cause := fun _ => rfl
  terminateRequest := .inl
  detached := id
  gaveUp := id
  finished := id
  inputClosed := id
  peerEnded := id
  closedMessage := .inl
  closeRequested := .inl
  outputs := fun _ => .refl _

theorem none_of_kept {before after : Option α}
    (kept : before.isSome = true → after = before) (none : after = none) :
    before = .none := by
  cases before with
  | none => rfl
  | some value => simp [kept rfl] at none

theorem false_of_kept {before after : Bool} (kept : before = true → after = true)
    (stillFalse : after = false) : before = false := by
  cases before with
  | false => rfl
  | true => simp [kept rfl] at stillFalse

theorem trans (first : runner.Later next) (second : next.Later third) : runner.Later third where
  key := second.key.trans first.key
  limits := second.limits.trans first.limits
  timers := second.timers.trans first.timers
  launch := fun isSome => by
    have same := first.launch isSome
    rw [← same] at isSome
    exact (second.launch isSome).trans same
  awaitsLaunch := first.awaitsLaunch ∘ second.awaitsLaunch
  startedMessage := fun starts =>
    (second.startedMessage starts).elim first.startedMessage (.inr ∘ first.awaitsLaunch)
  exit := fun isSome => by
    have same := first.exit isSome
    rw [← same] at isSome
    exact (second.exit isSome).trans same
  settleRequest := fun requested =>
    (second.settleRequest requested).elim first.settleRequest (.inr ∘ none_of_kept first.exit)
  fenced := second.fenced ∘ first.fenced
  terminatedAt := fun isSome => by
    have same := first.terminatedAt isSome
    rw [← same] at isSome
    exact (second.terminatedAt isSome).trans same
  cause := fun isSome => by
    have same := first.terminatedAt isSome
    have cause := first.cause isSome
    rw [← same] at isSome
    exact (second.cause isSome).trans cause
  terminateRequest := fun requested =>
    (second.terminateRequest requested).elim first.terminateRequest
      (.inr ∘ none_of_kept first.terminatedAt)
  detached := second.detached ∘ first.detached
  gaveUp := second.gaveUp ∘ first.gaveUp
  finished := second.finished ∘ first.finished
  inputClosed := second.inputClosed ∘ first.inputClosed
  peerEnded := second.peerEnded ∘ first.peerEnded
  closedMessage := fun tells =>
    (second.closedMessage tells).elim first.closedMessage (.inr ∘ false_of_kept first.inputClosed)
  closeRequested := fun requested =>
    (second.closeRequested requested).elim first.closeRequested
      (.inr ∘ false_of_kept first.inputClosed)
  outputs := fun stream => (first.outputs stream).trans (second.outputs stream)

theorem change (change : Change runner next) : runner.Later next := by
  have same := refl runner
  cases change with
  | closeInput stillOpen =>
    exact { same with
      inputClosed := fun _ => rfl
      closedMessage := fun _ => .inr stillOpen
      closeRequested := .inl }
  | requestClose peerEnded stillOpen empty =>
    exact { same with
      inputClosed := fun _ => rfl
      closedMessage := .inl
      closeRequested := fun _ => .inr stillOpen }
  | terminate now cause first unfinished closed =>
    have notYet {holds : Prop} (isSome : runner.terminatedAt.isSome = true) :
        holds := by simp [first] at isSome
    exact { same with
      terminatedAt := notYet
      cause := notYet
      terminateRequest := fun _ => .inr first }
  | endGrace ending unfinished =>
    exact { same with outputs := fun stream => .endGrace _ }
  | fence awaited => exact { same with fenced := fun _ => rfl }
  | giveUp waiting unfinished unclean =>
    exact { same with
      awaitsLaunch := by simp [Runner.awaitsLaunch, Runner.giveUp]
      exit := fun isSome => by
        cases exited : runner.exit with
        | none => simp [exited] at isSome
        | some status => simp [Runner.giveUp, exited]
      settleRequest := by simp [Runner.giveUp]
      fenced := fun _ => rfl
      gaveUp := fun _ => rfl
      outputs := fun stream => .giveUp _ }
  | abandonLaunch awaited waiting unfinished =>
    exact { same with
      awaitsLaunch := fun _ => awaited
      fenced := fun _ => rfl }
  | abandonOpenStreams fenced waiting unfinished =>
    exact { same with outputs := fun stream => .abandon _ }
  | leavePeer now ending unfinished silent =>
    exact { same with
      startedMessage := by simp [Runner.leavePeer]
      detached := fun _ => rfl
      closedMessage := by simp [Runner.leavePeer] }
  | _ => exact { same with }

theorem setOutput (runner : Runner) (stream : Stream) {output : Output}
    (later : (runner.outputs stream).Later output) :
    runner.Later (runner.setOutput stream output) :=
  { refl runner with
    outputs := fun other => by
      simp only [Runner.setOutput, Function.update_apply]
      split
      · rename_i same
        subst other
        exact later
      · exact .refl _ }

theorem report (report : Report runner call next)
    (life : runner.Lifecycle) : runner.Later next := by
  have same := refl runner
  have notLaunched (awaited : runner.awaitsLaunch = true) {holds : Prop}
      (isSome : runner.launch.isSome = true) : holds := by
    simp only [Runner.awaitsLaunch, Bool.and_eq_true, Option.isNone_iff_eq_none] at awaited
    simp [awaited.1.1] at isSome
  cases report with
  | launched awaited =>
    exact { same with
      launch := notLaunched awaited
      awaitsLaunch := fun _ => awaited
      startedMessage := fun _ => .inr awaited }
  | launchFailed awaited failure =>
    exact { same with
      launch := notLaunched awaited
      awaitsLaunch := fun _ => awaited }
  | exit now status first ongoing closed =>
    exact { same with
      exit := fun isSome => by simp [first] at isSome
      settleRequest := fun _ => .inr first
      fenced := fun fenced => by
        have exited := life.settling (by simp [fenced])
        simp [first] at exited }
  | settle awaited =>
    exact { same with fenced := fun fenced => by simp [awaited] at fenced }
  | setOutput stream call output change =>
    exact setOutput runner stream (.workload change)

theorem output (runner : Runner) (stream : Stream) (bytes : List UInt8) :
    runner.Later (runner.output stream bytes).1 := by
  unfold Runner.output
  simp only
  split
  · exact refl runner
  · rename_i accepts
    simp only [Bool.or_eq_true, not_or, Bool.not_eq_true] at accepts
    split
    · exact setOutput runner stream { Output.Later.refl _ with
        truncated := fun truncated => by simp [truncated] }
    · rename_i keeps
      have later : (runner.outputs stream).Later { runner.outputs stream with
          queue := (runner.outputs stream).queue ++ bytes.take (min bytes.length
            (overflowingSub 64 runner.limits.chunk
              (runner.outputs stream).queue.length).1) } :=
        { Output.Later.refl _ with
          silent := fun silent => by
            rcases silent.2 with closed | discarding
            · simp [accepts.1] at closed
            · exact absurd discarding keeps }
      exact { setOutput runner stream later with }

theorem requests (requests : Requests runner next request) : runner.Later next := by
  have same := refl runner
  cases requests with
  | terminate cause waiting =>
    exact { same with terminateRequest := by simp }
  | discard stream waiting =>
    exact setOutput runner stream { Output.Later.refl _ with
      discardRequested := by simp }
  | closeInput waiting =>
    exact { same with closeRequested := by simp [setInput] }
  | settle waiting => exact { same with settleRequest := by simp }
  | nothing => exact same

theorem emits (emits : Emits runner capacity next message) : runner.Later next := by
  have same := refl runner
  cases emits with
  | started speaks waiting => exact { same with startedMessage := by simp }
  | inputClosed speaks waiting => exact { same with closedMessage := by simp }
  | streamEnd stream speaks started launched ending =>
    have later : (runner.outputs stream).Later { runner.outputs stream with ended := true } :=
      { Output.Later.refl _ with ended := fun _ => rfl }
    exact { setOutput runner stream later with }
  | output stream length speaks started launched positive queued chunked affordable =>
    have later : (runner.outputs stream).Later { runner.outputs stream with
        queue := (runner.outputs stream).queue.drop length } :=
      { Output.Later.refl _ with
        silent := fun silent => ⟨by simp [silent.1], silent.2⟩ }
    exact { setOutput runner stream later with }
  | terminal outcome unfinished ended quiet =>
    exact { same with finished := fun _ => rfl }
  | nothing quiet => exact same
  | _ => exact { same with }

theorem kept (start : Runner) : KeptUnder Consistent start.Later where
  change := fun step _ later => later.trans (change step)
  report := fun step _ consistent later =>
    later.trans (report step consistent.life)
  output := fun stream bytes _ _ later => later.trans (output _ stream bytes)
  popInput := fun _ _ _ _ later => later.trans { refl _ with }
  grant := fun _ _ _ later => later.trans { refl _ with }
  charge := fun _ _ _ _ _ later => later.trans (by
    split <;> exact { refl _ with })
  peerEnds := fun _ _ _ later =>
    later.trans { refl _ with peerEnded := fun _ => rfl }
  requests := fun step _ later => later.trans (requests step)
  emits := fun step _ later => later.trans (emits step)

end Later

theorem Consistent.later (consistent : Consistent runner)
    (call : Call) : runner.Later (runner.step call).1 :=
  ((KeptUnder.and Consistent.kept (Later.kept runner)).step
    consistent.sound.opened_lt call ⟨consistent, .refl runner⟩).2

theorem Consistent.later_of_evolves (consistent : runner.Consistent) (chain : Evolves runner next) :
    next.Consistent ∧ runner.Later next :=
  (KeptUnder.and Consistent.kept
    (Later.kept runner)).toLocallyKept.evolves chain ⟨consistent, .refl runner⟩

theorem Consistent.later_after (consistent : Consistent runner) (calls : List Call) :
    runner.Later (machine.after runner calls) :=
  (Later.kept runner).after consistent (.refl runner) calls

end Nvx.Exec.Runner
