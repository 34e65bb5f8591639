import Nvx.Exec.RunnerMemory

namespace Nvx.Exec.Runner

open Nvx.Data

/-! The runner's outcome, as one record. -/

def launchFailure (runner : Runner) : Option LaunchFailure :=
  match runner.launch with
  | some (.error failure) => some failure
  | _ => none

def report (runner : Runner) : Outcome where
  status := runner.exit.join
  cause := runner.cause
  launchFailure := runner.launchFailure
  truncated := fun stream => (runner.outputs stream).truncated
  reusable := decide (runner.settling = .settled)

structure Concluded (runner : Runner) : Prop where
  launched : runner.awaitsLaunch = false
  exited : runner.exit.isSome = true
  delivered : ∀ stream, runner.delivered stream = true
  settled : runner.isSettled = true

theorem knownOutcome_eq (runner : Runner) : runner.knownOutcome = runner.report := by
  unfold knownOutcome report launchFailure
  simp only [Outcome.withTruncations_eq]
  cases runner.cause <;> rcases runner.launch with _ | _ | _ <;>
    by_cases settled : runner.settling = .settled <;>
    simp [settled, Outcome.new, Outcome.withCause, Outcome.withLaunchFailure, Outcome.withReusable]

theorem outcome_eq_some_iff {outcome : Outcome} : Runner.outcome runner = some outcome ↔
      runner.Concluded ∧ outcome = runner.report := by
  unfold Runner.outcome
  simp only
  split
  · rename_i waiting
    simp only [reduceCtorEq, false_iff, not_and]
    rintro ⟨launched, exited, delivered, settled⟩
    simp [launched, delivered, settled, Option.isNone_iff_eq_none,
      Option.isSome_iff_ne_none.mp exited] at waiting
  · rename_i ready
    simp only [Bool.or_eq_true, Bool.not_eq_true', not_or, Bool.not_eq_true,
      Bool.not_eq_false, Option.isNone_eq_false_iff, Bool.and_eq_true] at ready
    obtain ⟨⟨⟨launched, exited⟩, delivered⟩, settled⟩ := ready
    have concluded : runner.Concluded :=
      ⟨launched, exited, Stream.forall_iff.mpr delivered, settled⟩
    rw [knownOutcome_eq]
    constructor
    · intro same
      exact ⟨concluded, (Option.some.inj same).symm⟩
    · rintro ⟨_, rfl⟩
      rfl

theorem Concluded.outcome_eq (concluded : Concluded runner) : runner.outcome = some runner.report :=
  outcome_eq_some_iff.mpr ⟨concluded, rfl⟩

structure Lifecycle (runner : Runner) : Prop where
  started : runner.startedMessage = true → runner.launch.isSome = true ∧ runner.detached = false
  exitCloses : runner.exit.isSome = true → runner.input.closed = true
  terminationCloses : runner.terminatedAt.isSome = true → runner.input.closed = true
  grace : runner.graceUntil.isSome = true → runner.terminatedAt.isSome = true
  giveUpAt : runner.giveUpAt.isSome = true → runner.terminatedAt.isSome = true
  cause : runner.cause.isSome = true → runner.terminatedAt.isSome = true
  terminateRequest : runner.terminateRequest.isSome = true → runner.terminatedAt.isSome = true
  detached : runner.detached = true → runner.terminatedAt.isSome = true
  gaveUp : runner.gaveUp = true → runner.exit.isSome = true ∧
    runner.settling = .fenced ∧ runner.terminatedAt.isSome = true
  gaveUpRequest : runner.gaveUp = true → runner.settleRequest = false
  launchAbandoned : runner.launchAbandoned = true →
    runner.exit.isSome = true ∧ runner.settling = .fenced
  abandonAt : runner.abandonAt.isSome = true → runner.exit.isSome = true
  settling : runner.settling ≠ .idle → runner.exit.isSome = true
  exited : runner.exit.isSome = true → runner.settling ≠ .idle
  settleRequest : runner.settleRequest = true → runner.exit.isSome = true
  timeout : runner.timeoutAt.isSome = true → runner.terminatedAt = none
  timeoutStops : runner.timeoutAt.isSome = true → runner.exit = none
  finished : runner.finished = true → runner.awaitsLaunch = false ∧
    runner.exit.isSome = true ∧ runner.isSettled = true

namespace Lifecycle

theorem new (key : Key) (limits : Limits) (timers : Timers) (now : Instant) :
    (Runner.new key limits timers now).Lifecycle := by
  constructor <;> simp [Runner.new]

variable {runner next : Runner}

/-- A runner whose settlement is awaited has neither given up nor abandoned its
launch result. -/
theorem ongoing (life : runner.Lifecycle) {by_ : Option Instant}
    (awaited : runner.settling = .requested by_) :
    runner.gaveUp = false ∧ runner.launchAbandoned = false := by
  constructor
  · by_contra gaveUp
    simp [(life.gaveUp (by simpa using gaveUp)).2.1] at awaited
  · by_contra abandoned
    simp [(life.launchAbandoned (by simpa using abandoned)).2] at awaited

theorem unfinished_of_awaitsLaunch (life : runner.Lifecycle)
    (awaited : runner.awaitsLaunch = true) : runner.finished = false := by
  by_contra finished
  simp [(life.finished (by simpa using finished)).1] at awaited

theorem unfinished_of_running (life : runner.Lifecycle)
    (running : runner.exit = none) : runner.finished = false := by
  by_contra finished
  have exited := (life.finished (by simpa using finished)).2.1
  simp [running] at exited

theorem change (change : Change runner next) (life : runner.Lifecycle) :
    next.Lifecycle := by
  cases change with
  | stopTimeout =>
    exact { life with
      timeout := by simp
      timeoutStops := by simp }
  | closeInput stillOpen | requestClose peerEnded stillOpen empty =>
    exact { life with
      exitCloses := fun _ => rfl
      terminationCloses := fun _ => rfl }
  | terminate now cause first unfinished closed =>
    exact { life with
      terminationCloses := fun _ => closed
      grace := fun _ => rfl
      giveUpAt := fun _ => rfl
      cause := fun _ => rfl
      terminateRequest := fun _ => rfl
      detached := fun _ => rfl
      gaveUp := fun gaveUp =>
        ⟨(life.gaveUp gaveUp).1, (life.gaveUp gaveUp).2.1, rfl⟩
      timeout := by simp [beginTermination]
      timeoutStops := by simp [beginTermination] }
  | endGrace ending unfinished =>
    exact { life with grace := by simp [endGrace] }
  | fence awaited =>
    exact { life with
      gaveUp := fun gaveUp =>
        ⟨(life.gaveUp gaveUp).1, rfl, (life.gaveUp gaveUp).2.2⟩
      launchAbandoned := fun abandoned =>
        ⟨(life.launchAbandoned abandoned).1, rfl⟩
      settling := fun _ => life.settling (by simp [awaited])
      exited := by simp
      finished := fun finished =>
        ⟨(life.finished finished).1, (life.finished finished).2.1, rfl⟩ }
  | keepWaiting clean => exact { life with giveUpAt := by simp }
  | giveUp waiting unfinished unclean =>
    have terminated := life.giveUpAt waiting
    have ended : (if runner.exit.isNone then some none else runner.exit).isSome = true := by
      cases exited : runner.exit <;> simp
    exact { life with
      exitCloses := fun _ => life.terminationCloses terminated
      grace := by simp [Runner.giveUp]
      giveUpAt := by simp [Runner.giveUp]
      gaveUp := fun _ => ⟨ended, rfl, terminated⟩
      gaveUpRequest := fun _ => rfl
      launchAbandoned := fun _ => ⟨ended, rfl⟩
      abandonAt := fun _ => ended
      settling := fun _ => ended
      exited := by simp [Runner.giveUp]
      settleRequest := by simp [Runner.giveUp]
      timeoutStops := fun waits => by
        simp [life.timeout waits] at terminated
      finished := fun finished =>
        (Bool.eq_false_iff.mp unfinished finished).elim }
  | abandonLaunch awaited waiting unfinished =>
    have exited := life.abandonAt waiting
    exact { life with
      gaveUp := fun gaveUp => ⟨exited, rfl, (life.gaveUp gaveUp).2.2⟩
      launchAbandoned := fun _ => ⟨exited, rfl⟩
      settling := fun _ => exited
      exited := by simp [Runner.abandonLaunch]
      finished := fun finished =>
        (Bool.eq_false_iff.mp unfinished finished).elim }
  | abandonOpenStreams fenced waiting unfinished =>
    exact { life with abandonAt := by simp [Runner.abandonOpenStreams] }
  | leavePeer now ending unfinished silent =>
    exact { life with
      started := by simp [Runner.leavePeer]
      giveUpAt := fun _ => ending
      detached := fun _ => ending }

theorem report (report : Report runner call next) (life : runner.Lifecycle) : next.Lifecycle := by
  cases report with
  | settle awaited =>
    obtain ⟨notGivenUp, notAbandoned⟩ := life.ongoing awaited
    exact { life with
      gaveUp := fun gaveUp => (Bool.eq_false_iff.mp notGivenUp gaveUp).elim
      launchAbandoned := fun abandoned =>
        (Bool.eq_false_iff.mp notAbandoned abandoned).elim
      settling := fun _ => life.settling (by simp [awaited])
      exited := by simp
      finished := fun finished =>
        ⟨(life.finished finished).1, (life.finished finished).2.1, rfl⟩ }
  | launched awaited =>
    exact { life with
      started := fun starts => ⟨rfl, by simpa using starts⟩
      finished := fun finished => (Bool.eq_false_iff.mp
        (life.unfinished_of_awaitsLaunch awaited) finished).elim }
  | launchFailed awaited failure =>
    exact { life with
      started := fun starts => ⟨rfl, (life.started starts).2⟩
      finished := fun finished => (Bool.eq_false_iff.mp
        (life.unfinished_of_awaitsLaunch awaited) finished).elim }
  | exit now status first ongoing closed stopped =>
    exact { life with
      exitCloses := fun _ => closed
      gaveUp := fun gaveUp => (Bool.eq_false_iff.mp ongoing gaveUp).elim
      gaveUpRequest := fun gaveUp =>
        (Bool.eq_false_iff.mp ongoing gaveUp).elim
      launchAbandoned := fun abandoned => by
        have exited := (life.launchAbandoned abandoned).1
        simp [first] at exited
      abandonAt := fun _ => rfl
      settling := fun _ => rfl
      exited := by simp [beginSettlement]
      settleRequest := fun _ => rfl
      timeoutStops := by simp [beginSettlement, stopped]
      finished := fun finished => (Bool.eq_false_iff.mp
        (life.unfinished_of_running first) finished).elim }
  | setOutput stream call output change => exact { life with }

theorem requests (requests : Requests runner next request) (life : runner.Lifecycle) :
    next.Lifecycle := by
  cases requests with
  | terminate cause waiting => exact { life with terminateRequest := by simp }
  | settle waiting =>
    exact { life with
      gaveUpRequest := fun _ => rfl
      settleRequest := by simp }
  | _ => exact { life with }

theorem emits (emits : Emits runner capacity next message) (life : runner.Lifecycle) :
    next.Lifecycle := by
  cases emits with
  | started speaks waiting => exact { life with started := by simp }
  | terminal outcome unfinished ended quiet =>
    obtain ⟨concluded, _⟩ := outcome_eq_some_iff.mp ended
    exact { life with
      finished := fun _ =>
        ⟨concluded.launched, concluded.exited, concluded.settled⟩ }
  | nothing quiet => exact life
  | _ => exact { life with }

theorem kept : Kept Lifecycle where
  change := fun change _ life => life.change change
  report := fun report _ _ life => life.report report
  output := fun stream bytes _ _ life => by
    obtain ⟨_, _, _, _, same⟩ := output_frame _ stream bytes
    rw [same]
    exact { life with }
  popInput := fun _ _ _ _ life => { life with }
  grant := fun _ _ _ life => { life with }
  charge := fun _ _ _ _ _ life => by split <;> exact { life with }
  peerEnds := fun _ _ _ life => { life with }
  requests := fun requests _ life => life.requests requests
  emits := fun emits _ life => life.emits emits

end Lifecycle

structure OutputState (runner : Runner) (output : Output) : Prop where
  ended : output.ended = true → output.closed = true ∧ output.queue = []
  discarding : output.discarding = true → runner.terminatedAt.isSome = true
  discardRequested : output.discardRequested = true → output.discarding = true
  detached : runner.detached = true → output.Silent
  gaveUp : runner.gaveUp = true → output.closed = true ∧ output.queue = []
  finished : runner.finished = true → (output.closed = true ∧
    output.queue = []) ∧ (output.ended = true ∨ runner.detached = true)

theorem delivered_iff : delivered runner stream = true ↔
      ((runner.outputs stream).closed = true ∧ (runner.outputs stream).queue = []) ∧
          ((runner.outputs stream).ended = true ∨ runner.detached = true) := by
  simp [delivered, Output.isDone]

namespace OutputState

theorem new (key : Key) (limits : Limits) (timers : Timers) (now : Instant)
    (stream : Stream) : (Runner.new key limits timers now).OutputState
      ((Runner.new key limits timers now).outputs stream) := by
  constructor <;> simp [Runner.new, Output.new]

variable {runner next : Runner} {output : Output}

theorem endGrace (state : runner.OutputState output)
    (terminated : runner.terminatedAt.isSome = true) (unfinished : runner.finished = false) :
    runner.endGrace.OutputState output.endGrace := by
  have silent := output.endGrace_silent
  rw [Output.endGrace_eq] at silent ⊢
  exact {
    ended := fun ended => ⟨(state.ended ended).1, rfl⟩
    discarding := fun _ => terminated
    discardRequested := by
      have requested := state.discardRequested
      cases discarding : output.discarding <;> simp_all
    detached := fun _ => silent
    gaveUp := fun gaveUp => ⟨(state.gaveUp gaveUp).1, rfl⟩
    finished := fun finished =>
      (Bool.eq_false_iff.mp unfinished finished).elim }

theorem giveUp (state : runner.OutputState output) (unfinished : runner.finished = false) :
    runner.giveUp.OutputState output.giveUp := by
  rw [Output.giveUp_eq]
  exact {
    ended := fun _ => ⟨rfl, rfl⟩
    discarding := state.discarding
    discardRequested := state.discardRequested
    detached := fun _ => ⟨rfl, .inl rfl⟩
    gaveUp := fun _ => ⟨rfl, rfl⟩
    finished := fun finished =>
      (Bool.eq_false_iff.mp unfinished finished).elim }

theorem abandon (state : runner.OutputState output) (unfinished : runner.finished = false) :
    runner.abandonOpenStreams.OutputState output.abandon := by
  rw [Output.abandon_eq]
  exact {
    ended := fun ended => by simp [state.ended ended]
    discarding := state.discarding
    discardRequested := state.discardRequested
    detached := fun detached => by
      obtain ⟨empty, closed | discarding⟩ := state.detached detached
      · exact ⟨empty, .inl (by simp [closed])⟩
      · exact ⟨empty, .inr discarding⟩
    gaveUp := fun gaveUp => by simp [state.gaveUp gaveUp]
    finished := fun finished =>
      (Bool.eq_false_iff.mp unfinished finished).elim }

theorem workload (change : Output.Change output stream call changed)
    (state : runner.OutputState output) : runner.OutputState changed := by
  have closes (truncated : Bool) : runner.OutputState
      { output with closed := true, truncated := truncated } :=
    { state with
      ended := fun ended => ⟨rfl, (state.ended ended).2⟩
      detached := fun detached => ⟨(state.detached detached).1, .inl rfl⟩
      gaveUp := fun gaveUp => ⟨rfl, (state.gaveUp gaveUp).2⟩
      finished := fun finished =>
        ⟨⟨rfl, (state.finished finished).1.2⟩, (state.finished finished).2⟩ }
  cases change with
  | discarded bytes | hungUp => exact { state with }
  | closed | failed => exact closes _

theorem enqueue (state : runner.OutputState output) (queue : List UInt8)
    (stillOpen : output.closed = false) (kept : output.discarding = false) :
    runner.OutputState { output with queue := queue } := by
  have notClosed {queue : List UInt8}
      (closed : output.closed = true ∧ output.queue = queue) : False :=
    Bool.eq_false_iff.mp stillOpen closed.1
  exact { state with
    ended := fun ended => (notClosed (state.ended ended)).elim
    detached := fun detached => by
      rcases (state.detached detached).2 with closed | discarding
      · exact (Bool.eq_false_iff.mp stillOpen closed).elim
      · exact (Bool.eq_false_iff.mp kept discarding).elim
    gaveUp := fun gaveUp => (notClosed (state.gaveUp gaveUp)).elim
    finished := fun finished => (notClosed (state.finished finished).1).elim }

theorem dequeue (state : runner.OutputState output) (length : Nat) :
    runner.OutputState { output with queue := output.queue.drop length } := by
  have stillEmpty (empty : output.queue = []) : output.queue.drop length = [] := by simp [empty]
  exact { state with
    ended := fun ended =>
      ⟨(state.ended ended).1, stillEmpty (state.ended ended).2⟩
    detached := fun detached =>
      ⟨stillEmpty (state.detached detached).1, (state.detached detached).2⟩
    gaveUp := fun gaveUp =>
      ⟨(state.gaveUp gaveUp).1, stillEmpty (state.gaveUp gaveUp).2⟩
    finished := fun finished =>
      ⟨⟨(state.finished finished).1.1, stillEmpty (state.finished finished).1.2⟩,
        (state.finished finished).2⟩ }

end OutputState

def OutputsState (runner : Runner) : Prop :=
  ∀ stream, runner.OutputState (runner.outputs stream)

namespace OutputsState

variable {runner next : Runner}

theorem update (state : runner.OutputsState) (changed : Stream)
    {output : Output} (new : runner.OutputState output) :
    (runner.setOutput changed output).OutputsState := by
  intro stream
  have updated : runner.OutputState (Function.update runner.outputs changed output stream) :=
    forall_update runner.OutputState state new stream
  exact { updated with }

theorem change (change : Change runner next) (life : runner.Lifecycle)
    (state : runner.OutputsState) : next.OutputsState := by
  cases change with
  | terminate now cause first unfinished closed =>
    exact fun stream => { state stream with discarding := fun _ => rfl }
  | endGrace ending unfinished =>
    have terminated : runner.terminatedAt.isSome = true :=
      ending.elim life.grace id
    exact fun stream => (state stream).endGrace terminated unfinished
  | giveUp waiting unfinished unclean =>
    exact fun stream => (state stream).giveUp unfinished
  | abandonOpenStreams fenced waiting unfinished =>
    exact fun stream => (state stream).abandon unfinished
  | leavePeer now ending unfinished silent =>
    exact fun stream => { state stream with
      detached := fun _ => silent stream
      finished := fun finished =>
        (Bool.eq_false_iff.mp unfinished finished).elim }
  | _ => exact fun stream => { state stream with }

theorem report (report : Report runner call next)
    (state : runner.OutputsState) : next.OutputsState := by
  cases report with
  | setOutput changed call output change =>
    exact state.update changed ((state changed).workload change)
  | _ => exact fun stream => { state stream with }

theorem output (state : runner.OutputsState) (stream : Stream)
    (bytes : List UInt8) : (runner.output stream bytes).1.OutputsState := by
  unfold Runner.output
  simp only
  split
  · exact state
  · rename_i accepts
    simp only [Bool.or_eq_true, not_or, Bool.not_eq_true] at accepts
    split
    · exact state.update stream { state stream with }
    · rename_i keeps
      have queued := state.update stream ((state stream).enqueue
        ((runner.outputs stream).queue ++ bytes.take (min bytes.length
          (overflowingSub 64 runner.limits.chunk (runner.outputs stream).queue.length).1))
        accepts.1 (Bool.eq_false_iff.mpr keeps))
      exact fun other => { queued other with }

theorem requests (requests : Requests runner next request) (state : runner.OutputsState) :
    next.OutputsState := by
  cases requests with
  | discard stream waiting =>
    exact state.update stream { state stream with discardRequested := by simp }
  | nothing => exact state
  | _ => exact fun stream => { state stream with }

theorem emits (emits : Emits runner capacity next message) (state : runner.OutputsState) :
    next.OutputsState := by
  cases emits with
  | streamEnd stream speaks started launched ending =>
    simp only [endsNow, Output.isDone, Bool.and_eq_true, List.isEmpty_iff,
      Bool.not_eq_true'] at ending
    have new : runner.OutputState { runner.outputs stream with ended := true } :=
      { state stream with
        ended := fun _ => ending.1
        finished := fun _ => ⟨ending.1, .inl rfl⟩ }
    exact fun other => { state.update stream new other with }
  | output stream length speaks started launched positive queued chunked affordable =>
    have new := (state stream).dequeue length
    exact fun other => { state.update stream new other with }
  | terminal outcome unfinished ended quiet =>
    obtain ⟨concluded, _⟩ := outcome_eq_some_iff.mp ended
    exact fun stream => { state stream with
      finished := fun _ => delivered_iff.mp (concluded.delivered stream) }
  | nothing quiet => exact state
  | _ => exact fun stream => { state stream with }

theorem kept : KeptUnder Lifecycle OutputsState where
  change := fun change life state => state.change change life
  report := fun report _ _ state => state.report report
  output := fun stream bytes _ _ state => state.output stream bytes
  popInput := fun _ _ _ _ state stream => { state stream with }
  grant := fun _ _ _ state stream => { state stream with }
  charge := fun _ _ _ _ _ state stream => by
    split <;> exact { state stream with }
  peerEnds := fun _ _ _ state stream => { state stream with }
  requests := fun requests _ state => state.requests requests
  emits := fun emits _ state => state.emits emits

end OutputsState

structure InputState (runner : Runner) : Prop where
  empty : runner.input.closed = true → runner.input.inbox.bytes = []
  closedMessage : runner.input.closedMessage = true →
    runner.input.closed = true ∧ runner.detached = false
  closeRequested : runner.input.closeRequested = true → runner.input.closed = true
  taken : runner.input.closeRequested = true → runner.input.peerEnded = true
  exclusive : ¬ (runner.input.closedMessage = true ∧ runner.input.closeRequested = true)

namespace InputState

theorem new (key : Key) (limits : Limits) (timers : Timers) (now : Instant) :
    (Runner.new key limits timers now).InputState := by
  constructor <;> simp [Runner.new]

theorem change (change : Change runner next) (state : runner.InputState) :
    next.InputState := by
  cases change with
  | closeInput stillOpen =>
    exact {
      empty := fun _ => rfl
      closedMessage := fun tells => ⟨rfl, by
        simp only [setInput, Bool.and_eq_true, Bool.not_eq_true'] at tells
        exact tells.2⟩
      closeRequested := fun _ => rfl
      taken := state.taken
      exclusive := fun both =>
        Bool.eq_false_iff.mp stillOpen (state.closeRequested both.2) }
  | requestClose peerEnded stillOpen empty =>
    exact {
      empty := fun _ => empty
      closedMessage := fun tells =>
        ⟨rfl, (state.closedMessage tells).2⟩
      closeRequested := fun _ => rfl
      taken := fun _ => peerEnded
      exclusive := fun both =>
        Bool.eq_false_iff.mp stillOpen (state.closedMessage both.1).1 }
  | leavePeer now ending unfinished silent =>
    exact {
      empty := state.empty
      closedMessage := by simp [Runner.leavePeer]
      closeRequested := state.closeRequested
      taken := state.taken
      exclusive := by simp [Runner.leavePeer] }
  | _ => exact { state with }

theorem requests (requests : Requests runner next request) (state : runner.InputState) :
    next.InputState := by
  cases requests with
  | closeInput waiting =>
    exact { state with
      closeRequested := by simp [setInput]
      taken := by simp [setInput]
      exclusive := by simp [setInput] }
  | nothing => exact state
  | _ => exact { state with }

theorem emits (emits : Emits runner capacity next message) (state : runner.InputState) :
    next.InputState := by
  cases emits with
  | inputClosed speaks waiting =>
    exact { state with closedMessage := by simp, exclusive := by simp }
  | nothing quiet => exact state
  | _ => exact { state with }

theorem kept : Kept InputState where
  change := fun change _ state => state.change change
  report := fun report _ _ state => by cases report <;> exact { state with }
  output := fun stream bytes _ _ state => by
    obtain ⟨_, _, _, _, same⟩ := output_frame _ stream bytes
    rw [same]
    exact { state with }
  popInput := fun _ _ stillOpen _ state => { state with
    empty := fun closed => (Bool.eq_false_iff.mp stillOpen closed).elim }
  grant := fun _ _ _ state => { state with }
  charge := fun _ _ _ _ _ state => by
    split
    · exact { state with }
    · rename_i stillOpen
      exact { state with empty := fun closed => absurd closed stillOpen }
  peerEnds := fun _ _ _ state => { state with taken := fun _ => rfl }
  requests := fun requests _ state => state.requests requests
  emits := fun emits _ state => state.emits emits

end InputState

@[mk_iff]
structure Consistent (runner : Runner) : Prop where
  sound : runner.Sound
  life : runner.Lifecycle
  outputs : runner.OutputsState
  input : runner.InputState

namespace Consistent

theorem kept : Kept Consistent := by
  have life := KeptUnder.and Sound.kept (Lifecycle.kept.mono fun _ => trivial)
  have outputs := KeptUnder.and life (OutputsState.kept.mono fun held => held.2)
  have input := KeptUnder.and outputs (InputState.kept.mono fun _ => trivial)
  have same : (fun runner : Runner => ((runner.Sound ∧ runner.Lifecycle) ∧
      runner.OutputsState) ∧ runner.InputState) = Consistent := by
    funext runner
    rw [consistent_iff, and_assoc, and_assoc]
  rwa [same] at input

theorem new (key : Key) (limits : Limits) (timers : Timers) (now : Instant) :
    (Runner.new key limits timers now).Consistent where
  sound := Sound.new key limits timers now
  life := Lifecycle.new key limits timers now
  outputs := OutputState.new key limits timers now
  input := InputState.new key limits timers now

theorem step (consistent : Consistent runner) (call : Call) : (runner.step call).1.Consistent :=
  kept.step consistent.sound.opened_lt call consistent

theorem emits (consistent : Consistent runner) (capacity : Nat) :
    Emits runner capacity (runner.nextMessage capacity).1 (runner.nextMessage capacity).2 :=
  nextMessage_emits consistent.sound.opened_lt capacity

theorem after (consistent : start.Consistent)
    (calls : List Call) : (machine.after start calls).Consistent :=
  machine.invariant (fun _ runner => runner.Consistent) consistent
    (fun _ call held => held.step call) calls

end Consistent

theorem KeptUnder.after (kept : KeptUnder Consistent holds)
    (consistent : start.Consistent) (initial : holds start)
    (calls : List Call) : holds (machine.after start calls) := by
  have both := machine.invariant
    (fun _ runner => runner.Consistent ∧ holds runner) ⟨consistent, initial⟩
    (fun _ call held => (KeptUnder.and Consistent.kept kept).step
      held.1.sound.opened_lt call held) calls
  exact both.2

end Nvx.Exec.Runner
